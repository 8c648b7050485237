import Coscript.Proofs.BuiltTables
import Coscript.Proofs.WrittenGrammars

/-!
# Which documents can be stored

A grammar can be stored if its names are not empty and its texts do not hold the character zero,
which ends texts where they are stored. Names are always like this, and so are all literals but
string literals. A string literal is what stands between its quotes, and nothing keeps the character
zero out of it; then it is in the document as well, since no escape stands for it. So every document
without this character has a grammar that can be stored, and tables that can be.

With a zero in a string literal, what follows it is read back as more elements, and two documents
with different grammars are stored as the same bytes.

* `Document.Stores`: what storing the grammar of a document comes to;
* `Document.parse_storable`: which documents can be stored;
* `Document.parse_same_bytes`: two documents that are stored as the same bytes.
-/

namespace Coscript

/-! ### Zero in tokens -/

namespace Lexer

/-- No escape stands for the character zero. -/
lemma Unescapes.zero_mem {body text : List Char} (h : Unescapes body text) (hzero : '\x00' ∈ text) :
    '\x00' ∈ body := by
  induction h with
  | nil => exact hzero
  | plain _ _ _ _ ih =>
    rcases List.mem_cons.mp hzero with rfl | hzero
    · exact List.mem_cons_self
    · exact List.mem_cons_of_mem _ (ih hzero)
  | lineFeed _ ih | tab _ ih | quote _ ih | backslash _ ih =>
    have hzero := List.mem_of_ne_of_mem (by decide) hzero
    exact List.mem_cons_of_mem _ (List.mem_cons_of_mem _ (ih hzero))

/-- A token of a script holds the character zero only if it is a string literal, and its source
holds the character as well. -/
lemma zero_of_token {source : String} {ts : List Token} (h : tokenize .script source = .ok ts)
    {t : Token} (ht : t ∈ ts) (hzero : ¬ ZeroFree t.text) :
    t.type = .string ∧ '\x00' ∈ source.toList := by
  have htype : t.type = .string := by
    by_contra htype
    exact hzero (zeroFree_of_tokenize h t ht htype)
  obtain ⟨span, rest, hspan, hof⟩ := exists_span h ht
  obtain ⟨body, rfl, hcontents⟩ := hof.contents htype
  have hbody := hcontents.zero_mem (not_not.mp hzero)
  exact ⟨htype, hspan (List.mem_cons_of_mem _ (List.mem_append_left _ hbody))⟩

end Lexer

/-- A name is not empty, and does not hold the character zero. -/
lemma Document.zeroFree_of_isName {name : String} (h : isName name.toList = true) :
    name ≠ "" ∧ ZeroFree name := by
  constructor
  · rintro rfl
    exact absurd h (by decide)
  · intro hzero
    have hout : Lexer.continuesName .ruleBody '\x00' = false := by decide
    rw [continuesName_of_isName h _ hzero] at hout
    cases hout

namespace Grammar

variable {g : Grammar}

/-- A grammar that can be written can be stored, just if its string literals can. -/
theorem Written.storable_iff {chars : List Char} (h : g.Written chars) : g.Storable ↔
    ∀ s, .literal .string s ∈ g.usedTerminals → ZeroFree s := by
  constructor
  · intro hg s hs
    obtain ⟨i, p, hp, hmem⟩ := mem_usedTerminals_iff.mp hs
    exact (hg.rules p (Array.mem_of_getElem? hp)).body _ hmem
  · intro hstring
    have hname : ∀ p ∈ g.productions, p.name ≠ "" ∧ ZeroFree p.name := fun p hp => by
      obtain ⟨i, hi⟩ := Array.mem_iff_getElem?.mp hp
      exact Document.zeroFree_of_isName (h.names _ (mem_names_iff.mpr ⟨i, p, hi, rfl⟩))
    refine ⟨fun p hp => (hname p hp).1, fun p hp => ⟨(hname p hp).2, fun s hs => ?_⟩⟩
    obtain ⟨i, hi⟩ := Array.mem_iff_getElem?.mp hp
    cases h.symbols p hp s hs with
    | tokenType => exact List.not_mem_nil
    | @literal contents x _ htokens =>
      by_contra hzero
      obtain ⟨htype, -⟩ := Lexer.zero_of_token htokens List.mem_cons_self hzero
      refine hzero (hstring x.text (mem_usedTerminals_iff.mpr ⟨i, p, hi, ?_⟩))
      rwa [← htype]
    | @name a _ =>
      exact (Document.zeroFree_of_isName (h.names a (mem_names_of_mem_body hi hs))).2

/-- Grammars that can be stored, and are stored as the same bytes, have the same start symbol, and
the same names with the same rules. -/
theorem Storable.unambiguous {g' : Grammar} (hg : g.Storable) (hg' : g'.Storable)
    (h : g.encode = g'.encode) :
    g.start = g'.start ∧ g.names = g'.names ∧ ∀ a, g.rulesOf a = g'.rulesOf a := by
  obtain ⟨k, htakes, hk⟩ := hg.exists_takes
  obtain ⟨k', htakes', hk'⟩ := hg'.exists_takes
  have hdecode := decode_of_takes htakes
  rw [h, decode_of_takes htakes'] at hdecode
  cases hdecode
  exact ⟨hk.start.symm.trans hk'.start, hk.names.symm.trans hk'.names,
    fun a => (hk.rules a).symm.trans (hk'.rules a)⟩

end Grammar

namespace Document

variable {text : String} {g : Grammar}

/-- **What storing the grammar of a document comes to.** -/
structure Stores (text : String) (g : Grammar) : Prop where
  /-- Names can be stored. -/
  names : ∀ a ∈ g.names, a ≠ "" ∧ ZeroFree a
  /-- A literal that cannot be stored is a string literal, and its zero is one of the document. -/
  literals : ∀ type s, .literal type s ∈ g.usedTerminals → ¬ ZeroFree s →
    type = .string ∧ ¬ ZeroFree text
  /-- Nothing but such a literal keeps the grammar from being stored. -/
  storable : g.Storable ↔ ∀ s, .literal .string s ∈ g.usedTerminals → ZeroFree s
  /-- If it can be stored, then it is read back. -/
  reads : g.Storable → ∃ g', Grammar.decode g.encode = .ok g' ∧ g'.Regroups g
  /-- Then its bytes stand for its start symbol, its names, and the rules of each name. -/
  bytes : g.Storable → ∀ g' : Grammar, g'.Storable → g.encode = g'.encode →
    g.start = g'.start ∧ g.names = g'.names ∧ ∀ a, g.rulesOf a = g'.rulesOf a
  /-- Then a table that is built from it is read back, and its bytes stand for its entries, if its
  counts fit into 31 bits. -/
  tables : g.Storable → ∀ strategy t, Strategy.build strategy g = .ok t → t.size < 0x80000000 →
    t.rules.size < 0x80000000 → (∀ r ∈ t.rows, (ParsingTable.entries r).length < 0x80000000) →
    ParsingTable.decode t.encode = .ok t.withoutErrors ∧
      ∀ t' : ParsingTable, t'.Storable → t'.InRange → t.encode = t'.encode →
        t.withoutErrors = t'.withoutErrors

/-- **Which documents can be stored.** A document without the character zero has a grammar that can
be, since only string literals can hold it, and only if the document does. -/
theorem parse_storable (h : parse text = .ok g) :
    Stores text g ∧ (ZeroFree text → g.Storable) := by
  have hwritten := parse_written h
  have hliterals : ∀ type s, .literal type s ∈ g.usedTerminals → ¬ ZeroFree s →
      type = .string ∧ ¬ ZeroFree text := by
    intro type s hs hzero
    obtain ⟨i, p, hp, hmem⟩ := Grammar.mem_usedTerminals_iff.mp hs
    cases hwritten.symbols p (Array.mem_of_getElem? hp) _ hmem with
    | literal hcontents htokens =>
      obtain ⟨htype, hsource⟩ := Lexer.zero_of_token htokens List.mem_cons_self hzero
      exact ⟨htype, not_not.mpr (hcontents hsource)⟩
  refine ⟨⟨fun a ha => zeroFree_of_isName (hwritten.names a ha), hliterals, hwritten.storable_iff,
    fun hg => ?_, fun hg g' hg' => hg.unambiguous hg',
    fun hg strategy t ht hstates hrules hentries => ?_⟩, fun htext => ?_⟩
  · obtain ⟨g', htakes, hregroups⟩ := hg.exists_takes
    exact ⟨g', Grammar.decode_of_takes htakes, hregroups⟩
  · obtain ⟨hnames, hrange⟩ := Strategy.build_spec ht
    have hs := hnames.storable hg hstates hrules hentries
    exact ⟨hs.decode hrange, fun t' hs' hr' => hs.unambiguous hrange hs' hr'⟩
  · refine hwritten.storable_iff.mpr fun s hs => ?_
    by_contra hzero
    exact (hliterals _ s hs hzero).2 htext

/-- A document with a string literal whose grammar is read back. -/
theorem parse_storable_quoted : ∃ g,
    parse "%start S\nS -> `\x22a\x22` S'\nS' -> Integer|Float\n  | ()\n" = .ok g ∧ g.Storable ∧
      (∀ a ∈ g.names, a ≠ "" ∧ ZeroFree a) ∧
      ∃ g', Grammar.decode g.encode = .ok g' ∧ g'.Regroups g := by
  obtain ⟨g, hg, -⟩ := exists_of_any
    "%start S\nS -> `\x22a\x22` S'\nS' -> Integer|Float\n  | ()\n" (fun _ => true)
    (by decide +kernel)
  obtain ⟨hstores, hzero⟩ := parse_storable hg
  have hstorable : g.Storable := hzero (by decide)
  exact ⟨g, hg, hstorable, hstores.names, hstores.reads hstorable⟩

/-- A string literal with the character zero in it. -/
def zeroDocument : String := "%start S\nS -> `\x22a\x00\x04\x01b\x22`\n"

/-- The bytes that two documents are stored as. -/
def sameBytes : List UInt8 :=
  [0x53, 0, 0x53, 0, 4, 1, 0x61, 0, 4, 1, 0x62, 0, endMark, endMark, 0, 0]

/-- **A string literal with the character zero is stored as two literals.** The document is
accepted, and a document with the two literals, which has another grammar, has the same bytes. -/
theorem parse_same_bytes : ∃ g g' : Grammar, parse zeroDocument = .ok g ∧
    parse "%start S\nS -> `\x22a\x22` `\x22b\x22`\n" = .ok g' ∧
    (∃ s, .literal .string s ∈ g.usedTerminals ∧ ¬ ZeroFree s) ∧
    g.encode = g'.encode ∧ g.rulesOf "S" ≠ g'.rulesOf "S" := by
  obtain ⟨g, hg, hproperty⟩ := exists_of_any zeroDocument
    (fun g => decide (g.encode = sameBytes ∧ g.rulesOf "S" =
      [⟨"S", [.terminal (.literal .string "a\x00\x04\x01b")]⟩] ∧
      .literal .string "a\x00\x04\x01b" ∈ g.usedTerminals)) (by decide +kernel)
  obtain ⟨g', hg', hproperty'⟩ := exists_of_any
    "%start S\nS -> `\x22a\x22` `\x22b\x22`\n"
    (fun g => decide (g.encode = sameBytes ∧ g.rulesOf "S" =
      [⟨"S", [.terminal (.literal .string "a"), .terminal (.literal .string "b")]⟩]))
    (by decide +kernel)
  obtain ⟨hbytes, hrules, hused⟩ := of_decide_eq_true hproperty
  obtain ⟨hbytes', hrules'⟩ := of_decide_eq_true hproperty'
  refine ⟨g, g', hg, hg', ⟨_, hused, by decide⟩, hbytes.trans hbytes'.symm, ?_⟩
  rw [hrules, hrules']
  decide

end Document

end Coscript
