import Coscript.Proofs.Meaning
import Coscript.Proofs.Sessions
import Coscript.Proofs.Translation

/-!
# Compiled scripts do what they say

A script that is compiled and run reports exactly what comes of evaluating its parse tree, and leaves
the same variables and the same native calls behind. This holds for the statements of a file outside
of functions and for every call of one of its functions, whatever has been loaded and run before.

* `Script.translates_of_compile`: a compiled file holds the code of what its tree means;
* `Execution.reports_iff_evaluates`: runs and evaluations agree.
-/

namespace Coscript

open Script Execution

/-! ### Compiled files -/

namespace Script

variable {o : Operators} {file : String}

/-- What is compiled of declarations is the code of what they mean, in their order. -/
lemma Draft.addAll_eq_ok {ts : List Tree} {j : Journal} {d d' : Draft}
    (h : (Draft.addAll o file ts j d).2 = .ok d') :
    ∃ ds, ts.mapM (Elaboration.declaration o) = .ok ds ∧
      d'.functions.entries = d.functions.entries ++
        (Contents.ofDeclarations ds).definitions.map (fun x => (x.name, x.function file)) ∧
      d'.statements = (Contents.ofDeclarations ds).statements.reverse ++ d.statements := by
  induction ts generalizing j d with
  | nil =>
    cases h
    exact ⟨[], rfl, by simp [Contents.ofDeclarations], rfl⟩
  | cons t ts ih =>
    rw [Draft.addAll] at h
    split at h
    · cases h
    · next s hs =>
      obtain ⟨ds, hds, hfunctions, hstatements⟩ := ih h
      refine ⟨.statement s :: ds, ?_, hfunctions, ?_⟩
      · rw [List.mapM_cons, hs, hds]
        rfl
      · simp [hstatements, Contents.ofDeclarations]
    · next x hx =>
      dsimp only at h
      split at h
      · cases h
      · next d₁ hd₁ =>
        unfold Draft.addFunction at hd₁
        split at hd₁
        · cases hd₁
        · next hnew =>
          cases hd₁
          obtain ⟨ds, hds, hfunctions, hstatements⟩ := ih h
          have hkey : x.name ∉ d.functions.entries.map Prod.fst := by
            rw [Bool.not_eq_true, OrderedMap.contains, Option.isSome_eq_false_iff,
              Option.isNone_iff_eq_none] at hnew
            exact OrderedMap.find_eq_none_iff.mp hnew
          refine ⟨.function x :: ds, ?_, ?_, hstatements⟩
          · rw [List.mapM_cons, hx, hds]
            rfl
          · have hinsert : (d.functions.insert x.name (x.function file)).entries =
                d.functions.entries ++ [(x.name, x.function file)] :=
              OrderedMap.map_fst_put_of_not_mem hkey
            rw [hfunctions]
            change (d.functions.insert x.name (x.function file)).entries ++ _ = _
            rw [hinsert, List.append_assoc]
            rfl

/-- A file is compiled from a source text, by a table and with some operators, and the parse tree of
the text means some contents. -/
structure Compiles (t : ParsingTable) (o : Operators) (file : String) (x : Contents)
    (c : CompiledFile) : Prop where
  exists_tree : ∃ fuel source j j' tokens tree,
    compile fuel t o file source j = some (j', .ok c) ∧
    Lexer.tokenize .script source = .ok tokens ∧ t.parse fuel tokens = some (.ok tree) ∧
    Contents.IsOf o tree x

/-- The declarations that plain trees mean are admissible. -/
lemma Contents.admissible_of_declarations {ts : List Tree} {ds : List Declaration}
    (hts : ∀ t ∈ ts, t.Plain) (hds : ts.mapM (Elaboration.declaration o) = .ok ds) :
    (∀ d ∈ (ofDeclarations ds).definitions, Statement.AllAdmissible o d.body) ∧
      Statement.AllAdmissible o (ofDeclarations ds).statements := by
  have hall : ∀ d ∈ ds, d.Admissible o := by
    intro d hd
    obtain ⟨t, ht, hdt⟩ := exists_of_mem_mapM hds hd
    exact Elaboration.declaration_admissible (hts t ht) hdt
  constructor
  · intro d hd
    obtain ⟨x, hx, hxd⟩ := List.mem_filterMap.mp hd
    cases x with
    | function d' =>
      cases hxd
      exact hall _ hx
    | statement s => cases hxd
  · refine Statement.allAdmissible_iff.mpr fun s hs => ?_
    obtain ⟨x, hx, hxs⟩ := List.mem_filterMap.mp hs
    cases x with
    | function d => cases hxs
    | statement s' =>
      cases hxs
      exact hall _ hx

/-- **A compiled file holds the code of what its tree means.** -/
theorem Compiles.translates {strategy : Strategy} {j₀ : Journal} {t : ParsingTable}
    (ht : (constructTable strategy j₀).2 = .ok t) {file : LoadedFile} {f : SourceFile}
    (h : Compiles t o f.name f.contents file.compiled) (hglobals : file.globals = f.globals)
    (hsmall : file.compiled.Small) : file.Translates o f := by
  obtain ⟨fuel, source, j, j', tokens, tree, hcompile, htokens, htree, hmeans⟩ := h.exists_tree
  obtain ⟨tokens', tree', htokens', htree', j₁, hcompile⟩ := compile_eq_ok hcompile
  cases htokens.symm.trans htokens'
  cases htree.symm.trans htree'
  obtain ⟨ts, d, hts, hadd, hfinish⟩ := compileTree_eq_ok hcompile
  obtain ⟨ds, hds, hfunctions, hstatements⟩ := Draft.addAll_eq_ok hadd
  have hcontents : f.contents = Contents.ofDeclarations ds := (Contents.isOf_iff hts hds _).mp hmeans
  have hplain := plain_of_declarations (plain_of_parse ht htokens htree) hts
  obtain ⟨hdefinitions, hbody⟩ := Contents.admissible_of_declarations hplain hds
  rw [← hcontents] at hfunctions hstatements hdefinitions hbody
  have hstatements : d.statements.reverse = f.contents.statements := by
    rw [hstatements, Draft.empty, List.append_nil, List.reverse_reverse]
  refine ⟨?_, hglobals, ?_, ?_, hdefinitions, hbody, hsmall⟩
  · rw [hfinish, Draft.finish]
  · rw [hfinish]
    exact hfunctions
  · rw [hfinish, Draft.finish, hstatements]

end Script

/-! ### Loaded files -/

/-- A registry holds the files of a program: each file is compiled from a source text that means
what the program says of the file, and its functions are not large. -/
structure Registry.Contains (r : Registry) (t : ParsingTable) (p : Program) : Prop where
  operators : r.operators = p.operators
  natives : r.natives = p.natives
  files : List.Forall₂ (fun entry f => entry.1 = f.name ∧ entry.2.globals = f.globals ∧
    Compiles t r.operators f.name f.contents entry.2.compiled ∧ entry.2.compiled.Small)
    r.files.entries p.files

variable {r : Registry} {t : ParsingTable} {p : Program}

/-- **The files of a program are its code.** -/
theorem Registry.Contains.translates {strategy : Strategy} {j : Journal}
    (ht : (constructTable strategy j).2 = .ok t) (h : r.Contains t p) : r.Translates p where
  operators := h.operators
  natives := h.natives
  files := by
    refine h.files.imp fun entry f hentry => ?_
    obtain ⟨hname, hglobals, hcompiles, hsmall⟩ := hentry
    exact ⟨hname, hcompiles.translates ht hglobals hsmall⟩

/-- The file with a name is compiled from the file of the program with the name. -/
lemma Registry.Translates.exists_file (h : r.Translates p) {name : String} {file : LoadedFile}
    (hfile : r.files.get? name = some file) :
    ∃ f ∈ p.files, f.name = name ∧ file.Translates r.operators f := by
  have hfind := forall₂_find name r.files.nodup h.files
  rw [show OrderedMap.find name r.files.entries = some file from hfile] at hfind
  obtain ⟨f, fs, hf, -, hfs⟩ := List.forall₂_cons_left_iff.mp hfind
  have hmem : f ∈ p.files.filter fun f => f.name = name := by simp [hfs]
  obtain ⟨hmem, hname⟩ := List.mem_filter.mp hmem
  exact ⟨f, hmem, of_decide_eq_true hname, hf⟩

/-! ### Runs from outside -/

namespace Execution

variable {w : World} {o : Operators} {natives : Natives} {σ : Store} {report : Report}

/-- What a call of a function from outside reports: that the call cannot be made, or what the
execution reports that it begins. -/
inductive CallReports (r : Registry) (w : World) (g : Function) (file : LoadedFile)
    (arguments : List Value) : Store → Report → Prop
  | refused {e : RuntimeError} (h : ofCall w g file arguments = .error e) :
      CallReports r w g file arguments w.store (.failed e)
  | begun {w' : World} {e : Execution} {σ : Store} {report : Report}
      (h : ofCall w g file arguments = .ok (w', e)) (hreports : Reports r w' e σ report) :
      CallReports r w g file arguments σ report

/-- The global variables of a loaded file are where the code of the file looks for them. -/
lemma locates (hs : Session o natives r w) {name : String} {file : LoadedFile}
    (hfile : r.files.get? name = some file) : r.Locates w.scopes file.globals file.globals :=
  ⟨(hs.outermost hfile).inside, fun _ _ h => hs.outermost h⟩

/-- The initializer of a file reports what the statements of the file come to. -/
lemma initializer_reports (hs : Session o natives r w) (hr : r.Translates p)
    (hprompt : r.natives.Prompt) {name : String} {file : LoadedFile} {f : SourceFile}
    (hfile : r.files.get? name = some file) (hf : file.Translates r.operators f) :
    Reports r w (initializer file) σ report ↔
      ∃ n, (p.runFile n f w.store).report? = some (σ, report) := by
  refine reports_iff (g := file.compiled.initializer) fun n => ?_
  have hin := locates hs hfile
  rw [hf.globals] at hin
  have hhas : file.compiled.initializer.Has 0 (bodyCode f.contents.statements) := by
    have hsmall := hf.small _ (.inr rfl)
    rw [hf.initializer] at hsmall ⊢
    exact has_of_admissible hf.statements_admissible hsmall
  have hfileName : file.compiled.initializer.file = f.name := by
    rw [hf.initializer]
    rfl
  have hcalls := Program.call_simulates hr hprompt n file.compiled.initializer [] f.globals
  rw [hfileName] at hcalls
  change Simulates r n w (standing _ 0 [] file.globals [] []) _ _
  rw [hf.globals]
  exact Statement.result_simulates hcalls hf.statements_admissible hhas hin

/-- The world in which a called function begins. -/
def entering (w : World) (f : SourceFile) (d : Definition) (arguments : List Value) : World where
  scopes := Activation.bind (w.scopes.addChild f.globals).1 (w.scopes.addChild f.globals).2
    d.parameters arguments
  calls := w.calls
  journal := w.journal

/-- A function begins in a new scope that holds its arguments. -/
lemma ofCall_function {file : LoadedFile} {f : SourceFile} {d : Definition}
    {arguments : List Value} (hglobals : file.globals = f.globals)
    (harity : arguments.length = d.parameters.length) (w : World) :
    ofCall w (d.function f.name) file arguments = .ok (entering w f d arguments,
      ofActivation (.start (d.function f.name) (w.scopes.addChild f.globals).2)) := by
  have hparameters : arguments.length = (d.function f.name).parameters.length := harity
  rw [ofCall, Activation.ofCall, if_pos hparameters, hglobals]
  rfl

/-- A function cannot be called with a wrong number of arguments. -/
lemma ofCall_arity {file : LoadedFile} {f : SourceFile} {d : Definition} {arguments : List Value}
    (harity : arguments.length ≠ d.parameters.length) (w : World) :
    ofCall w (d.function f.name) file arguments =
      .error (.arityMismatch d.name d.parameters.length arguments.length none) := by
  have hparameters : arguments.length ≠ (d.function f.name).parameters.length := harity
  rw [ofCall, Activation.ofCall, if_neg hparameters]
  rfl

/-- A call of a function from outside reports what comes of the function. -/
lemma function_reports (hs : Session o natives r w) (hr : r.Translates p)
    (hprompt : r.natives.Prompt) {name current : String} {file : LoadedFile} {f : SourceFile}
    {d : Definition} (hfile : r.function? name current = some (d.function f.name, file))
    (hf : file.Translates r.operators f) (hd : d ∈ f.contents.definitions)
    (arguments : List Value) :
    CallReports r w (d.function f.name) file arguments σ report ↔
      ∃ n, (p.runFunction n f d arguments w.store).report? = some (σ, report) := by
  obtain ⟨⟨key, hkey⟩, hget⟩ := Registry.exists_of_function? hfile
  simp only [Program.runFunction, Program.bindArguments]
  by_cases harity : arguments.length = d.parameters.length
  · have hbegins := ofCall_function hf.globals harity w
    have hin : r.Locates (entering w f d arguments).scopes (w.scopes.addChild f.globals).2
        f.globals :=
      (hf.globals ▸ locates hs hkey).addChild.grows (ScopeTree.grows_bind _ _ d.parameters arguments)
    have hbody := hf.definitions_admissible d hd
    have hhas : (d.function f.name).Has 0 (bodyCode d.body) :=
      has_of_admissible hbody (hf.small _ (.inl ⟨name, hget⟩))
    rw [if_pos harity]
    refine Iff.trans ⟨fun h => ?_, .begun hbegins⟩ (reports_iff fun n =>
      Statement.result_simulates
        (Program.call_simulates hr hprompt n (d.function f.name) [] f.globals) hbody hhas hin)
    cases h with
    | refused h => cases hbegins.symm.trans h
    | begun h hreports =>
      cases hbegins.symm.trans h
      exact hreports
  · have hrefused : ofCall w (d.function f.name) file arguments =
        .error (.arityMismatch d.name d.parameters.length arguments.length none) :=
      ofCall_arity harity w
    rw [if_neg harity]
    simp only [Evaluation.bind, Evaluation.report?, exists_const, Option.some.injEq,
      Prod.mk.injEq]
    constructor
    · intro h
      cases h with
      | refused h =>
        cases hrefused.symm.trans h
        exact ⟨rfl, rfl⟩
      | begun h => cases hrefused.symm.trans h
    · rintro ⟨rfl, rfl⟩
      exact .refused hrefused

/-- **Compiled scripts do what they say.** After any session in which files are loaded, calls are
begun and executions are run, with natives that answer at once: the initializer of a file reports
exactly what the statements of its parse tree come to, a name means a function of the code where it
means one of the trees, and a call of that function reports exactly what its statements come to. A
report tells the value or the error together with the store that is left, which holds all scopes and
the native calls; where nothing is reported, the evaluation does not come to an end either. -/
theorem reports_iff_evaluates {strategy : Strategy} {j : Journal}
    (ht : (constructTable strategy j).2 = .ok t) (hs : Session o natives r w)
    (hprompt : natives.Prompt) (hr : r.Contains t p) :
    (∀ name file, r.files.get? name = some file → ∃ f ∈ p.files, f.name = name ∧
      ∀ σ report, Reports r w (initializer file) σ report ↔
        ∃ n, (p.runFile n f w.store).report? = some (σ, report)) ∧
    ∀ name current,
      (r.function? name current = none ↔ p.definition? name current = none) ∧
      ∀ g file, r.function? name current = some (g, file) →
        ∃ f d, p.definition? name current = some (f, d) ∧
          ∀ arguments σ report, CallReports r w g file arguments σ report ↔
            ∃ n, (p.runFunction n f d arguments w.store).report? = some (σ, report) := by
  have htranslates := hr.translates ht
  have hprompt : r.natives.Prompt := hs.operators.2 ▸ hprompt
  constructor
  · intro name file hfile
    obtain ⟨f, hmem, hname, hf⟩ := htranslates.exists_file hfile
    exact ⟨f, hmem, hname, fun σ report => initializer_reports hs htranslates hprompt hfile hf⟩
  · intro name current
    have hfinds := htranslates.finds name current
    generalize hfunction : r.function? name current = found at hfinds
    generalize hdefinition : p.definition? name current = found' at hfinds
    cases hfinds with
    | nothing => exact ⟨by simp, by simp⟩
    | @function file f d hf hd =>
      refine ⟨by simp, fun g file' hg => ?_⟩
      cases hg
      exact ⟨f, d, rfl, fun arguments σ report =>
        function_reports hs htranslates hprompt hfunction hf hd arguments⟩

lemma exampleNatives_prompt : exampleNatives.Prompt := by
  intro name n hn calls arguments call hreply
  have hmem := OrderedMap.mem_of_get?_ofList hn
  cases List.mem_singleton.mp hmem
  cases hreply

/-- The contents of the example are evaluated to their end. -/
theorem reports_iff_evaluates_example : ∃ t r w p file f,
    (constructTable .simple (.empty none)).2 = .ok t ∧ Session .standard exampleNatives r w ∧
    exampleNatives.Prompt ∧ r.Contains t p ∧ r.files.get? "main" = some file ∧ f ∈ p.files ∧
    ∃ σ, Reports r w (initializer file) σ (.done .undefined) ∧
      ∃ n, (p.runFile n f w.store).report? = some (σ, .done .undefined) := by
  obtain ⟨t, j, c, ht, hcompile, hsmall, hruns⟩ := exists_compiled_runs
  obtain ⟨tokens, tree, htokens, htree, j₁, hcompileTree⟩ := compile_eq_ok hcompile
  obtain ⟨ts, d, hts, hadd, hfinish⟩ := compileTree_eq_ok hcompileTree
  obtain ⟨ds, hds, -, -⟩ := Draft.addAll_eq_ok hadd
  have hname : c.name = "main" := by rw [hfinish, Draft.finish]
  have hcompiles : Compiles t .standard "main" (.ofDeclarations ds) c :=
    ⟨_, _, _, _, tokens, tree, hcompile, htokens, htree, (Contents.isOf_iff hts hds _).mpr rfl⟩
  -- The example is the first file that is loaded.
  obtain ⟨r, w, file, hload⟩ : ∃ r w file,
      (Registry.start .standard exampleNatives).load (.empty none) c = (r, w, file) :=
    ⟨_, _, _, rfl⟩
  have hs : Session .standard exampleNatives r w := by
    have hs : Session .standard exampleNatives
        ((Registry.start .standard exampleNatives).load (.empty none) c).1
        ((Registry.start .standard exampleNatives).load (.empty none) c).2.1 :=
      Session.load (.start none) (.empty none) c
    rwa [hload] at hs
  obtain ⟨hentries, hr, hcompiled⟩ : r.files.entries = [(c.name, file)] ∧
      (r.operators = .standard ∧ r.natives = exampleNatives) ∧ file.compiled = c := by
    cases hload
    exact ⟨rfl, ⟨rfl, rfl⟩, rfl⟩
  have hfile : r.files.get? "main" = some file := by
    rw [OrderedMap.get?, hentries, OrderedMap.find, if_pos hname]
  have hcontains : r.Contains t ⟨.standard, exampleNatives,
      [⟨"main", .ofDeclarations ds, file.globals⟩]⟩ := by
    refine ⟨hr.1, hr.2, ?_⟩
    rw [hentries, hr.1]
    exact .cons ⟨hname, rfl, hcompiled ▸ hcompiles, hcompiled ▸ hsmall⟩ .nil
  obtain ⟨f, hf, -, hiff⟩ :=
    (reports_iff_evaluates ht hs exampleNatives_prompt hcontains).1 "main" file hfile
  have hreports : ∃ σ, Reports r w (initializer file) σ (.done .undefined) := by
    unfold runsExample at hruns
    rw [hload] at hruns
    dsimp only at hruns
    split at hruns
    · next w' e report hrun =>
      obtain rfl : report = .done .undefined := of_decide_eq_true hruns
      exact ⟨w'.store, 1000, w', e, hrun, rfl⟩
    · cases hruns
  obtain ⟨σ, hσ⟩ := hreports
  exact ⟨t, r, w, _, file, f, ht, hs, exampleNatives_prompt, hcontains, hfile, hf, σ, hσ,
    (hiff σ _).mp hσ⟩

end Execution

end Coscript
