import Coscript.Grammar.Encoding
import Coscript.Proofs.Decoding

/-!
# Steps of readers

Readers are put together from steps. What is known of a step does not depend on where it is used,
so that the facts about a reader of a whole format are put together from those about its steps.

* `Reader.Takes`: a step takes some bytes for a value wherever they stand, and comes to the end of
  the data if some of them are cut off;
* `Reader.Advances`: a step, also a failed one, moves the reader within its data;
* `Reader.Ensures`: a property of all values that a step gives;
* `Reader.upToMark`, `Reader.repeatedly`: lists that an end mark ends, and lists of a known length;
* `Reader.takes_element`, `Reader.takes_encodeBody`: elements and bodies of rules are read back.
-/

namespace Coscript

namespace Reader

variable {α β γ σ : Type}

/-! ### Sequences of steps -/

/-- A step and then another one, which may depend on where the first one stood. -/
def andThen (f : Reading α) (k : Reader → α → Reading β) : Reading β := fun r =>
  match f r with
  | .error e r' => .error e r'
  | .ok a r' => k r a r'

/-- The step that takes nothing. -/
def done (a : α) : Reading α := fun r => .ok a r

/-- The step that fails where it stands. -/
def fail (e : DecodeError) : Reading α := fun r => .error e r

variable {f : Reading α} {k : Reader → α → Reading β}

lemma andThen_ok {r r' : Reader} {a : α} (h : f r = .ok a r') : andThen f k r = k r a r' := by
  rw [andThen, h]

lemma andThen_error {r r' : Reader} {e : DecodeError} (h : f r = .error e r') :
    andThen f k r = .error e r' := by
  rw [andThen, h]

lemma andThen_assoc (h : β → Reading γ) :
    andThen (andThen f k) (fun _ => h) = andThen f fun r a => andThen (k r a) fun _ => h := by
  funext r
  unfold andThen
  cases f r <;> rfl

lemma bind_eq_andThen (f : Reading α) (k : α → Reading β) :
    f >>= k = andThen f fun _ => k := by
  funext r
  change EStateM.bind f k r = andThen f (fun _ => k) r
  unfold EStateM.bind andThen
  cases f r <;> rfl

/-! ### Bytes that a step takes -/

/-- A step takes some bytes for a value, wherever they stand and whatever is behind them. -/
def Reads (f : Reading α) (bytes : List UInt8) (a : α) : Prop :=
  ∀ rest offset, f ⟨bytes ++ rest, offset⟩ = .ok a ⟨rest, offset + bytes.length⟩

/-- A step comes to the end of the data if they are some bytes with the last ones cut off. -/
def Misses (f : Reading α) (bytes : List UInt8) : Prop :=
  ∀ cut, cut <+: bytes → cut ≠ bytes → ∀ offset,
    ∃ n r, f ⟨cut, offset⟩ = .error (.unexpectedEnd n) r

/-- A step takes some bytes for a value, and needs all of them. -/
structure Takes (f : Reading α) (bytes : List UInt8) (a : α) : Prop where
  reads : Reads f bytes a
  misses : Misses f bytes

variable {bytes bytes' : List UInt8} {a : α} {b : β}

lemma reads_done (a : α) : Reads (done a) [] a := fun _ _ => rfl

lemma misses_nil (f : Reading α) : Misses f [] := fun _ h hne =>
  absurd (List.prefix_nil.mp h) hne

lemma takes_done (a : α) : Takes (done a) [] a := ⟨reads_done a, misses_nil _⟩

lemma Reads.andThen (hf : Reads f bytes a) (hk : ∀ r, Reads (k r a) bytes' b) :
    Reads (andThen f k) (bytes ++ bytes') b := by
  intro rest offset
  rw [List.append_assoc, andThen_ok (hf _ _), hk, List.length_append, Nat.add_assoc]

lemma length_lt_of_cut {cut : List UInt8} (h : cut <+: bytes) (hne : cut ≠ bytes) :
    cut.length < bytes.length :=
  lt_of_le_of_ne h.length_le fun he => hne (h.eq_of_length he)

/-- Nothing is left of a single byte that is cut off. -/
lemma cut_singleton {cut : List UInt8} {b : UInt8} (h : cut <+: [b]) (hne : cut ≠ [b]) :
    cut = [] :=
  List.length_eq_zero_iff.mp (Nat.lt_one_iff.mp (length_lt_of_cut h hne))

/-- Where two pieces are cut, the cut is in the first one, or in the second one behind the first. -/
lemma cut_append {cut : List UInt8} (h : cut <+: bytes ++ bytes') (hne : cut ≠ bytes ++ bytes') :
    (cut <+: bytes ∧ cut ≠ bytes) ∨
      ∃ cut', cut = bytes ++ cut' ∧ cut' <+: bytes' ∧ cut' ≠ bytes' := by
  obtain ⟨more, hmore⟩ := h
  rcases List.append_eq_append_iff.mp hmore with ⟨rest, hbytes, -⟩ | ⟨cut', rfl, hbytes'⟩
  · by_cases heq : cut = bytes
    · refine .inr ⟨[], by rw [heq, List.append_nil], List.nil_prefix, ?_⟩
      rintro rfl
      exact hne (by rw [heq, List.append_nil])
    · exact .inl ⟨⟨rest, hbytes.symm⟩, heq⟩
  · refine .inr ⟨cut', rfl, ⟨more, hbytes'.symm⟩, ?_⟩
    rintro rfl
    exact hne rfl

lemma Misses.andThen (hf : Takes f bytes a) (hk : ∀ r, Misses (k r a) bytes') :
    Misses (andThen f k) (bytes ++ bytes') := by
  intro cut hcut hne offset
  rcases cut_append hcut hne with ⟨hcut, hne⟩ | ⟨cut', rfl, hcut', hne'⟩
  · obtain ⟨n, r, hr⟩ := hf.misses cut hcut hne offset
    exact ⟨n, r, andThen_error hr⟩
  · rw [andThen_ok (hf.reads _ _)]
    exact hk _ cut' hcut' hne' _

lemma Takes.andThen (hf : Takes f bytes a) (hk : ∀ r, Takes (k r a) bytes' b) :
    Takes (andThen f k) (bytes ++ bytes') b :=
  ⟨hf.reads.andThen fun r => (hk r).reads, .andThen hf fun r => (hk r).misses⟩

/-- Nothing more is taken where what follows is done. -/
lemma Takes.finish (hf : Takes f bytes a) (hk : ∀ r, k r a = done b) :
    Takes (Reader.andThen f k) bytes b := by
  have htakes : Takes (Reader.andThen f k) (bytes ++ []) b := hf.andThen fun r => by
    rw [hk]
    exact takes_done b
  rwa [List.append_nil] at htakes

/-- A step that makes a value of what was taken. -/
lemma Takes.map (hf : Takes f bytes a) (h : α → β) :
    Takes (Reader.andThen f fun _ a => done (h a)) bytes (h a) :=
  hf.finish fun _ => rfl

/-! ### Movements -/

/-- Where a reader stands after a step. -/
def after (x : EStateM.Result DecodeError Reader α) : Reader :=
  match x with
  | .ok _ r => r
  | .error _ r => r

/-- A step moves the reader within its data, whether it fails or not. -/
def Advances (f : Reading α) : Prop := ∀ r, ∃ n ≤ r.rest.length, after (f r) = r.advance n

@[simp] lemma advance_zero (r : Reader) : r.advance 0 = r := rfl

lemma advance_advance (r : Reader) (m n : Nat) : (r.advance m).advance n = r.advance (m + n) := by
  simp only [advance, List.drop_drop, Nat.add_assoc]

lemma length_advance (r : Reader) (n : Nat) : (r.advance n).rest.length = r.rest.length - n :=
  List.length_drop

lemma Advances.andThen (hf : Advances f) (hk : ∀ r a, Advances (k r a)) :
    Advances (andThen f k) := by
  intro r
  obtain ⟨m, hm, hr⟩ := hf r
  cases hfr : f r with
  | error e r' =>
    rw [andThen_error hfr]
    rw [hfr] at hr
    exact ⟨m, hm, hr⟩
  | ok a r' =>
    rw [andThen_ok hfr]
    rw [hfr] at hr
    obtain rfl : r' = r.advance m := hr
    obtain ⟨n, hn, hr'⟩ := hk r a (r.advance m)
    rw [length_advance] at hn
    exact ⟨m + n, by omega, by rw [hr', advance_advance]⟩

/-! ### Values -/

/-- A property of all values that a step gives. -/
def Ensures (f : Reading α) (P : α → Prop) : Prop := ∀ r a r', f r = .ok a r' → P a

lemma Ensures.andThen {P : α → Prop} {Q : β → Prop} (hf : Ensures f P)
    (hk : ∀ r a, P a → Ensures (k r a) Q) : Ensures (andThen f k) Q := by
  intro r b r' h
  cases hfr : f r with
  | error e r'' =>
    rw [andThen_error hfr] at h
    cases h
  | ok a r'' =>
    rw [andThen_ok hfr] at h
    exact hk r a (hf _ _ _ hfr) _ _ _ h

/-! ### Single pieces -/

lemma takes_byte (b : UInt8) : Takes byte [b] b where
  reads _ _ := rfl
  misses cut hcut hne offset := by
    obtain rfl := cut_singleton hcut hne
    exact ⟨_, _, rfl⟩

lemma takes_word (n : Nat) : Takes word (Bytes.ofWord n) (n % 0x100000000) where
  reads rest offset := by
    change EStateM.Result.ok (Bytes.toWord _ _ _ _) _ = _
    rw [Bytes.toWord_ofWord]
    rfl
  misses cut hcut hne offset := by
    have hlt : cut.length < 4 := length_lt_of_cut hcut hne
    rcases cut with _ | ⟨a, _ | ⟨b, _ | ⟨c, _ | ⟨d, rest⟩⟩⟩⟩
    all_goals first
      | exact ⟨_, _, rfl⟩
      | exact absurd hlt (by simp)

/-- The index that a number is, if it is not negative. -/
def indexOf (r : Reader) (n : Nat) : Reading Nat :=
  if Bytes.signed n < 0 then fail (.outOfRange (Bytes.signed n) r.offset)
  else done (Bytes.signed n).toNat

lemma int_eq : int = andThen word fun _ n => done (Bytes.signed n) := by
  funext r
  change EStateM.map Bytes.signed word r = _
  unfold EStateM.map andThen
  cases word r <;> rfl

lemma index_eq : index = andThen word indexOf := by
  funext r
  unfold index
  rw [int_eq]
  unfold andThen
  cases word r with
  | error e r' => rfl
  | ok n r' =>
    unfold indexOf
    dsimp only [done]
    split <;> rfl

/-- A number of 31 bits is read back. -/
lemma takes_index {n : Nat} (h : n < 0x80000000) : Takes index (Bytes.ofWord n) n := by
  have hsigned : Bytes.signed (n % 0x100000000) = n := by
    rw [Nat.mod_eq_of_lt (by omega), Bytes.signed, if_pos h]
  rw [index_eq]
  refine (takes_word n).finish fun r => ?_
  rw [indexOf, hsigned, if_neg (by omega), Int.toNat_natCast]

/-- A text without the character zero is read back. -/
lemma takes_text {s : String} (h : ZeroFree s) : Takes text (Bytes.ofTerminated s) s where
  reads rest offset := by
    have htake : (Bytes.ofText s ++ 0 :: rest).takeWhile (· ≠ 0) = Bytes.ofText s := by
      rw [List.takeWhile_append_of_pos, List.takeWhile_cons_of_neg (by simp), List.append_nil]
      intro b hb
      simpa using fun he : b = 0 => h.zero_not_mem (he ▸ hb)
    have hbytes : Bytes.ofTerminated s ++ rest = Bytes.ofText s ++ 0 :: rest := by
      rw [Bytes.ofTerminated, List.append_assoc, List.singleton_append]
    unfold text
    rw [hbytes, if_pos (by simp), htake]
    dsimp only
    rw [Bytes.toText?_ofText]
    simp [advance, Bytes.ofTerminated]
  misses cut hcut hne offset := by
    have hzero : 0 ∉ cut := by
      rcases cut_append hcut hne with ⟨hcut, -⟩ | ⟨cut', rfl, hcut', hne'⟩
      · exact fun hmem => h.zero_not_mem (hcut.subset hmem)
      · obtain rfl := cut_singleton hcut' hne'
        rw [List.append_nil]
        exact h.zero_not_mem
    unfold text
    rw [if_neg hzero]
    exact ⟨_, _, rfl⟩

/-- No character is encoded with an end mark. -/
lemma endMark_not_mem_encodeChar (c : Char) : endMark ∉ String.utf8EncodeChar c := by
  have hlt := val_lt_of_char c
  fun_cases String.utf8EncodeChar c
  all_goals
    simp only [endMark, List.mem_cons, List.not_mem_nil, or_false, not_or, ← UInt8.toNat_inj]
    simp only [UInt8.toNat_ofNat', UInt8.toNat_ofNat]
    omega

/-- Takes values up to and with an end mark, at most `fuel` of them. -/
def listUpTo (item : Reading α) : Nat → Reading (List α)
  | 0 => fun r => .error (.unexpectedEnd r.offset) r
  | fuel + 1 => fun r =>
    match r.peek? with
    | none => .error (.unexpectedEnd r.offset) r
    | some b =>
      if b = endMark then .ok [] (r.advance 1)
      else
        andThen item (fun _ a => andThen (listUpTo item fuel) fun _ as => done (a :: as)) r

/-- Takes values up to and with an end mark. There are no more of them than bytes. -/
def upToMark (item : Reading α) : Reading (List α) := fun r => listUpTo item (r.rest.length + 1) r

/-- The bytes of a value do not begin with an end mark. -/
def Unmarked (bytes : List UInt8) : Prop := ∃ b rest, bytes = b :: rest ∧ b ≠ endMark

lemma Unmarked.append (h : Unmarked bytes) (more : List UInt8) : Unmarked (bytes ++ more) := by
  obtain ⟨b, rest, rfl, hb⟩ := h
  exact ⟨b, rest ++ more, rfl, hb⟩

/-- A text does not begin with an end mark. -/
lemma unmarked_ofTerminated (s : String) : Unmarked (Bytes.ofTerminated s) := by
  unfold Bytes.ofTerminated
  cases htext : Bytes.ofText s with
  | nil => exact ⟨0, [], rfl, by decide⟩
  | cons b rest =>
    refine ⟨b, rest ++ [0], rfl, ?_⟩
    rintro rfl
    have hmem : endMark ∈ s.toList.flatMap String.utf8EncodeChar := by
      rw [← Bytes.ofText_eq, htext]
      exact List.mem_cons_self
    obtain ⟨c, -, hc⟩ := List.mem_flatMap.mp hmem
    exact endMark_not_mem_encodeChar c hc

lemma listUpTo_unmarked {item : Reading α} {fuel : Nat} (h : Unmarked bytes) (rest : List UInt8)
    (offset : Nat) : listUpTo item (fuel + 1) ⟨bytes ++ rest, offset⟩ =
      andThen item (fun _ a => andThen (listUpTo item fuel) fun _ as => done (a :: as))
        ⟨bytes ++ rest, offset⟩ := by
  obtain ⟨b, bytes, rfl, hb⟩ := h
  rw [listUpTo]
  simp only [peek?, List.cons_append, List.head?_cons, if_neg hb]

variable {item : Reading α} {encode : α → List UInt8}

/-- With enough fuel, the bytes of some values and an end mark are taken for these values. -/
lemma reads_listUpTo {as : List α} (hitem : ∀ a ∈ as, Takes item (encode a) a)
    (hmark : ∀ a ∈ as, Unmarked (encode a)) {fuel : Nat} (hfuel : as.length < fuel) :
    Reads (listUpTo item fuel) (as.flatMap encode ++ [endMark]) as := by
  induction as generalizing fuel with
  | nil =>
    obtain ⟨fuel, rfl⟩ : ∃ m, fuel = m + 1 := ⟨fuel - 1, by omega⟩
    exact fun _ _ => rfl
  | cons a as ih =>
    obtain ⟨fuel, rfl⟩ : ∃ m, fuel = m + 1 := ⟨fuel - 1, by omega⟩
    have htail : Reads (listUpTo item fuel) (as.flatMap encode ++ [endMark]) as :=
      ih (fun x hx => hitem x (List.mem_cons_of_mem _ hx))
        (fun x hx => hmark x (List.mem_cons_of_mem _ hx)) (by simpa using hfuel)
    have hstep := (hitem a List.mem_cons_self).reads.andThen
      (k := fun _ a => andThen (listUpTo item fuel) fun _ as => done (a :: as))
      fun _ => htail.andThen fun _ => reads_done (a :: as)
    intro rest offset
    have hbytes : (a :: as).flatMap encode ++ [endMark] =
        encode a ++ (as.flatMap encode ++ [endMark] ++ []) := by
      simp
    rw [hbytes, List.append_assoc, listUpTo_unmarked (hmark a List.mem_cons_self),
      ← List.append_assoc, hstep]

/-- Whatever the fuel, the reader comes to the end of the data if the end mark is missing. -/
lemma misses_listUpTo {as : List α} (hitem : ∀ a ∈ as, Takes item (encode a) a)
    (hmark : ∀ a ∈ as, Unmarked (encode a)) (fuel : Nat) :
    Misses (listUpTo item fuel) (as.flatMap encode ++ [endMark]) := by
  induction fuel generalizing as with
  | zero => exact fun _ _ _ _ => ⟨_, _, rfl⟩
  | succ fuel ih =>
    intro cut hcut hne offset
    cases as with
    | nil =>
      obtain rfl := cut_singleton hcut hne
      exact ⟨_, _, rfl⟩
    | cons a as =>
      have htail := ih (fun x hx => hitem x (List.mem_cons_of_mem _ hx))
        (fun x hx => hmark x (List.mem_cons_of_mem _ hx))
      have hstep : Misses (andThen item fun _ a =>
          andThen (listUpTo item fuel) fun _ as => done (a :: as))
          (encode a ++ (as.flatMap encode ++ [endMark])) :=
        .andThen (hitem a List.mem_cons_self) fun _ cut hcut hne offset => by
          obtain ⟨n, r, hr⟩ := htail cut hcut hne offset
          exact ⟨n, r, andThen_error hr⟩
      rw [List.flatMap_cons, List.append_assoc] at hcut hne
      -- The cut is behind the first byte of the value, or in front of it.
      cases cut with
      | nil => exact ⟨_, _, rfl⟩
      | cons b cut =>
        obtain ⟨b', bytes, hbytes, hb'⟩ := hmark a List.mem_cons_self
        obtain rfl : b = b' := by
          rw [hbytes] at hcut
          exact (List.cons_prefix_cons.mp hcut).1
        have hshape : listUpTo item (fuel + 1) ⟨(b :: cut) ++ [], offset⟩ = _ :=
          listUpTo_unmarked ⟨b, cut, rfl, hb'⟩ [] offset
        rw [List.append_nil] at hshape
        rw [hshape]
        exact hstep _ hcut hne offset

/-- **A list with an end mark is read back.** -/
theorem takes_upToMark {as : List α} (hitem : ∀ a ∈ as, Takes item (encode a) a)
    (hmark : ∀ a ∈ as, Unmarked (encode a)) :
    Takes (upToMark item) (as.flatMap encode ++ [endMark]) as where
  reads rest offset := by
    refine reads_listUpTo hitem hmark ?_ rest offset
    have hle : as.length ≤ (as.flatMap encode).length := by
      clear hitem
      induction as with
      | nil => exact Nat.zero_le _
      | cons a as ih =>
        obtain ⟨b, bytes, hbytes, -⟩ := hmark a List.mem_cons_self
        have := ih fun x hx => hmark x (List.mem_cons_of_mem _ hx)
        rw [List.flatMap_cons, List.length_append, List.length_cons, hbytes, List.length_cons]
        omega
    simp only [List.length_append, List.length_singleton]
    omega
  misses cut hcut hne offset := misses_listUpTo hitem hmark _ cut hcut hne offset

/-- Makes a step a number of times. -/
def repeatedly (step : σ → Reading σ) : Nat → σ → Reading σ
  | 0, s => done s
  | n + 1, s => andThen (step s) fun _ s => repeatedly step n s

variable {step : σ → Reading σ} {add : σ → α → σ}

/-- **A list of a known length is read back**, value by value. -/
theorem takes_repeatedly {as : List α} (h : ∀ a ∈ as, ∀ s, Takes (step s) (encode a) (add s a))
    (s : σ) : Takes (repeatedly step as.length s) (as.flatMap encode) (as.foldl add s) := by
  induction as generalizing s with
  | nil => exact takes_done s
  | cons a as ih =>
    exact (h a List.mem_cons_self s).andThen fun _ =>
      ih (fun x hx => h x (List.mem_cons_of_mem _ hx)) (add s a)

/-- The element that some parts are. -/
def elementOf (type : TokenType) (r : Reader) (form : UInt8) : Reading Element :=
  andThen text fun _ s =>
    (Element.ofParts? type form s).elim (fail (.invalidTag "element type" form r.offset)) done

lemma element_eq : element = andThen byte fun r type =>
    (TokenType.ofNat? type.toNat).elim (fail (.invalidTag "token type" type r.offset)) fun type =>
      andThen byte (elementOf type) := by
  funext r
  unfold element andThen
  cases byte r with
  | error e r' => rfl
  | ok type r' =>
    dsimp only
    cases TokenType.ofNat? type.toNat with
    | none => rfl
    | some tokenType =>
      simp only [Option.elim]
      cases byte r' with
      | error e r'' => rfl
      | ok form r'' =>
        simp only [elementOf, andThen]
        cases text r'' with
        | error e r''' => rfl
        | ok s r''' =>
          simp only
          cases Element.ofParts? tokenType form s <;> rfl

end Reader

/-- An element whose text can be stored. -/
def Element.Storable (e : Element) : Prop := ZeroFree e.parts.2.2

instance (e : Element) : Decidable e.Storable := inferInstanceAs (Decidable (ZeroFree _))

/-- A rule whose texts can be stored. -/
structure Production.Storable (p : Production) : Prop where
  name : ZeroFree p.name
  body : ∀ x ∈ p.body, (Element.symbol x).Storable

instance (p : Production) : Decidable p.Storable :=
  decidable_of_iff (ZeroFree p.name ∧ ∀ x ∈ p.body, (Element.symbol x).Storable)
    ⟨fun h => ⟨h.1, h.2⟩, fun h => ⟨h.name, h.body⟩⟩

namespace Reader

lemma toNat_ofNat_tokenType (type : TokenType) : (UInt8.ofNat type.toNat).toNat = type.toNat := by
  cases type <;> rfl

/-- **An element is read back.** -/
theorem takes_element {e : Element} (h : e.Storable) : Takes element e.encode e := by
  have hform : ∀ r, Takes (elementOf e.parts.1 r e.parts.2.1) (Bytes.ofTerminated e.parts.2.2) e := by
    intro r
    refine (takes_text h).finish fun _ => ?_
    rw [Element.ofParts?_parts]
    rfl
  change Takes element ([UInt8.ofNat e.parts.1.toNat] ++
    ([e.parts.2.1] ++ Bytes.ofTerminated e.parts.2.2)) e
  rw [element_eq]
  refine (takes_byte _).andThen fun r => ?_
  rw [toNat_ofNat_tokenType, TokenType.ofNat?_toNat]
  exact (takes_byte _).andThen hform

lemma tokenType_ne_endMark (type : TokenType) : UInt8.ofNat type.toNat ≠ endMark := by
  cases type <;> decide

lemma unmarked_element (e : Element) : Unmarked e.encode :=
  ⟨_, _, rfl, tokenType_ne_endMark e.parts.1⟩

lemma elements_eq : elements = upToMark element := by
  have hfuel : ∀ fuel, elementsUpTo fuel = listUpTo element fuel := by
    intro fuel
    induction fuel with
    | zero => rfl
    | succ fuel ih =>
      funext r
      unfold elementsUpTo listUpTo andThen
      rw [ih]
      cases element r with
      | error e r' => rfl
      | ok e r' =>
        cases hrest : listUpTo element fuel r' <;> simp only [hrest] <;> rfl
  funext r
  exact congrFun (hfuel _) r

/-- The body of a rule is read back as that of a rule with the same name. -/
lemma takes_encodeBody {p : Production} (h : p.Storable) :
    ∃ es, Takes elements p.encodeBody es ∧ Production.ofElements p.name es = p := by
  refine ⟨if p.elements.isEmpty then [.empty] else p.elements, ?_, ?_⟩
  · rw [elements_eq]
    refine takes_upToMark (fun e he => takes_element ?_) fun e _ => unmarked_element e
    split at he
    · rw [List.mem_singleton.mp he]
      exact List.not_mem_nil
    · obtain ⟨x, hx, rfl⟩ := List.mem_map.mp he
      exact h.body x hx
  · split
    · next hempty =>
      have hbody : p.body = [] := by simpa [Production.elements] using hempty
      cases p
      cases hbody
      rfl
    · exact p.ofElements_elements

end Reader

end Coscript
