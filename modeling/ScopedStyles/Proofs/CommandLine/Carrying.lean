import Mathlib
import ScopedStyles.CommandLine.Run
import ScopedStyles.Proofs.CommandLine.Files
import ScopedStyles.Proofs.Registry.Rereading
import ScopedStyles.Proofs.Resolver.Independence
import ScopedStyles.Proofs.Selector.Moves

namespace ScopedStyles.CommandLine

open Scope Selector

def Accepted (l : List Char) : Prop :=
  (∀ c ∈ l, isBlank c) ∨ ∃ t, Selector.parse (String.ofList l) = .ok t

def rules (ls : List (List Char)) : List String :=
  (ls.filter fun l => ∃ c ∈ l, ¬isBlank c).map String.ofList

theorem isBlankLine_iff {l : List Char} : isBlankLine l ↔ ∀ c ∈ l, isBlank c :=
  List.all_eq_true

theorem rules_cons_of_blank {l : List Char} (h : ∀ c ∈ l, isBlank c) (ls : List (List Char)) :
    rules (l :: ls) = rules ls := by
  rw [rules, List.filter_cons_of_neg (by simpa using h)]
  rfl

theorem rules_cons_of_not_blank {l : List Char} (h : ¬∀ c ∈ l, isBlank c) (ls : List (List Char)) :
    rules (l :: ls) = String.ofList l :: rules ls := by
  rw [rules, List.filter_cons_of_pos (by simpa using h)]
  rfl

theorem rules_append (ls later : List (List Char)) : rules (ls ++ later) = rules ls ++ rules later := by
  rw [rules, List.filter_append, List.map_append]
  rfl

/-- The scoped forms of rules, each by a new resolver. -/
def scopedForms (c : Config) (rules : List String) : List String :=
  rules.filterMap fun rule => (Resolver.answer c rule).toOption.map Prod.fst

/-- A registry with what rules show. -/
def shown (c : Config) (known : Registry) (rules : List String) : Registry :=
  rules.foldl (fun known rule => known ⊔ Resolver.contribution c rule) known

theorem run_of_accepted (r : Resolver) {rule : String} {t : Selector.Tree}
    (h : Selector.parse rule = .ok t) :
    ∃ out r', r.run rule = .ok (out, r') ∧
      (Resolver.answer r.config rule).toOption.map Prod.fst = some out ∧ r'.config = r.config ∧
      r'.elements = r.elements ⊔ Resolver.contribution r.config rule := by
  obtain ⟨hanswer, hconfig, helements⟩ := r.step_spec rule
  have hrun := Resolver.run_of_parsed r h
  rw [Resolver.step, hrun] at hanswer hconfig helements
  refine ⟨_, _, hrun, ?_, hconfig, helements⟩
  rw [← hanswer]
  rfl

theorem resolveLines_append (r : Resolver) (n : Nat) {before : List (List Char)}
    (h : ∀ l ∈ before, Accepted l) (later : List (List Char)) :
    ∃ r', r'.elements = shown r.config r.elements (rules before) ∧
      resolveLines r n (before ++ later) =
        (scopedForms r.config (rules before) ++ (resolveLines r' (n + before.length) later).1,
          (resolveLines r' (n + before.length) later).2) := by
  induction before generalizing r n with
  | nil => exact ⟨r, rfl, rfl⟩
  | cons l ls ih =>
    obtain ⟨hl, hls⟩ := List.forall_mem_cons.1 h
    rw [List.cons_append, resolveLines, List.length_cons, Nat.add_comm ls.length 1, ← Nat.add_assoc]
    by_cases hblank : ∀ c ∈ l, isBlank c
    · rw [if_pos (isBlankLine_iff.2 hblank), rules_cons_of_blank hblank]
      exact ih r (n + 1) hls
    · obtain ⟨t, ht⟩ := hl.resolve_left hblank
      obtain ⟨out, r', hrun, hout, hconfig, helements⟩ := run_of_accepted r ht
      obtain ⟨last, hshown, hlater⟩ := ih r' (n + 1) hls
      rw [hconfig] at hlater hshown
      rw [helements] at hshown
      rw [if_neg (isBlankLine_iff.not.2 hblank), hrun, rules_cons_of_not_blank hblank, scopedForms,
        List.filterMap_cons, hout]
      refine ⟨last, hshown, ?_⟩
      dsimp only
      rw [hlater]
      rfl

theorem resolveLines_of_accepted (r : Resolver) (n : Nat) {ls : List (List Char)}
    (h : ∀ l ∈ ls, Accepted l) :
    ∃ r', resolveLines r n ls = (scopedForms r.config (rules ls), .ok r') ∧
      r'.elements = shown r.config r.elements (rules ls) := by
  obtain ⟨r', hshown, hlines⟩ := resolveLines_append r n h []
  rw [List.append_nil, resolveLines, List.append_nil] at hlines
  exact ⟨r', hlines, hshown⟩

theorem printLines_append (ls later : List String) :
    printLines (ls ++ later) = printLines ls ++ printLines later := by
  rw [printLines, List.map_append, String.join_append]
  rfl

variable {files : Files} {args : List String} {input registry : String} {config : Config} {p : Path}

theorem loadRegistry_of_missing (h : files.Writable registry p) (hnone : files.get? p = none) :
    loadRegistry files (some registry) = .ok ∅ := by
  rw [loadRegistry, h.exists?_eq, hnone]
  rfl

theorem loadRegistry_of_valid (h : files.Writable registry p) {text : String} {known : Registry}
    (hread : files.read registry = .ok text) (hparse : Registry.parse text = .ok known) :
    loadRegistry files (some registry) = .ok known := by
  obtain ⟨q, bytes, hfind, -, hget, -⟩ := Files.read_eq_ok_iff.1 hread
  cases h.find.symm.trans hfind
  rw [loadRegistry, h.exists?_eq, hget, hread]
  dsimp only [Option.isSome_some]
  rw [if_pos rfl, hparse]
  rfl

theorem loadRegistry_written (h : files.Writable registry p) (known : Registry) :
    loadRegistry (files.written p known.render.toUTF8) (some registry) = .ok known := by
  apply loadRegistry_of_valid (h.after _) (h.read_written _)
  exact Registry.parse_render known

/-- A run over accepted lines prints their scoped forms and writes what they show. -/
theorem run_resolve {text : String} {known : Registry}
    (hargs : Command.parse? args = some (.resolve input config (some registry)))
    (hread : files.read input = .ok text) (haccepted : ∀ l ∈ lines text.toList, Accepted l)
    (hload : loadRegistry files (some registry) = .ok known) (hwritable : files.Writable registry p) :
    run files args = .success (printLines (scopedForms config (rules (lines text.toList))))
      (files.written p (shown config known (rules (lines text.toList))).render.toUTF8) := by
  obtain ⟨r, hlines, hshown⟩ :=
    resolveLines_of_accepted { Resolver.new config with elements := known } 1 haccepted
  have hresolve : loadResolve files input (some registry) = .ok (lines text.toList, known) := by
    rw [loadResolve, hread, hload]
    rfl
  rw [run, hargs]
  dsimp only
  rw [runResolve, hresolve]
  dsimp only
  rw [hlines]
  dsimp only
  rw [saveRegistry, hwritable.write, hshown]
  rfl

/-- A registry file carries a session over. Two runs with the same registry file, one after the other, print
together what one run over all lines prints, and leave the registry file that it leaves. -/
theorem resolve_carried {files once : Files} {config : Config} {registry first second both : String}
    {args₁ args₂ args : List String} {p : Path} {text₁ text₂ text : String}
    (hargs₁ : Command.parse? args₁ = some (.resolve first config (some registry)))
    (hargs₂ : Command.parse? args₂ = some (.resolve second config (some registry)))
    (hargs : Command.parse? args = some (.resolve both config (some registry)))
    (hread₁ : files.read first = .ok text₁) (hread₂ : files.read second = .ok text₂)
    (hread : once.read both = .ok text)
    (hlines : lines text.toList = lines text₁.toList ++ lines text₂.toList)
    (haccepted : ∀ l ∈ lines text.toList, Accepted l)
    (hwritable : files.findForWriting registry = .ok p)
    (honce : once.findForWriting registry = .ok p) (hsame : once.get? p = files.get? p)
    (hvalid : files.get? p = none ∨
      ∃ old known, files.read registry = .ok old ∧ Registry.parse old = .ok known)
    (hdistinct : files.find second ≠ .ok p) :
    (run files args₁).exitCode = 0 ∧ (run (run files args₁).files args₂).exitCode = 0 ∧
      (run once args).exitCode = 0 ∧
      (run once args).output =
        (run files args₁).output ++ (run (run files args₁).files args₂).output ∧
      ∃ bytes, (run once args).files.get? p = some bytes ∧
        (run (run files args₁).files args₂).files.get? p = some bytes := by
  rw [Files.findForWriting_eq_ok_iff] at hwritable honce
  obtain ⟨known, hload, hload'⟩ : ∃ known, loadRegistry files (some registry) = .ok known ∧
      loadRegistry once (some registry) = .ok known := by
    rcases hvalid with hnone | ⟨old, known, hold, hparse⟩
    · exact ⟨∅, loadRegistry_of_missing hwritable hnone, loadRegistry_of_missing honce (hsame.trans hnone)⟩
    · have hold' : once.read registry = .ok old := by
        obtain ⟨q, bytes, hfind, -, hget, htext⟩ := Files.read_eq_ok_iff.1 hold
        cases hwritable.find.symm.trans hfind
        exact Files.read_eq_ok_iff.2 ⟨p, bytes, honce.find, honce.plain, hsame.trans hget, htext⟩
      exact ⟨known, loadRegistry_of_valid hwritable hold hparse, loadRegistry_of_valid honce hold' hparse⟩
  have hrun := run_resolve hargs hread haccepted hload' honce
  rw [hlines] at haccepted hrun
  obtain ⟨haccepted₁, haccepted₂⟩ := List.forall_mem_append.1 haccepted
  have hrun₁ := run_resolve hargs₁ hread₁ haccepted₁ hload hwritable
  have hrun₂ := run_resolve hargs₂ (Files.read_written_of_ne hread₂ hdistinct _) haccepted₂
    (loadRegistry_written hwritable (shown config known (rules (lines text₁.toList))))
    (hwritable.after _)
  rw [hrun₁, hrun, Outcome.success, Outcome.success]
  dsimp only
  rw [hrun₂, Outcome.success, rules_append]
  dsimp only
  refine ⟨rfl, rfl, rfl, ?_,
    (shown config known (rules (lines text₁.toList) ++ rules (lines text₂.toList))).render.toUTF8, ?_, ?_⟩
  · rw [scopedForms, List.filterMap_append, printLines_append]
    rfl
  · rw [Files.get?_written, if_pos rfl]
  · rw [Files.get?_written, if_pos rfl, shown, shown, shown, List.foldl_append]

def halves : Files :=
  ⟨[(["x"], "a\n".toUTF8), (["y"], "\na\n".toUTF8), (["z"], "a\n\na\n".toUTF8)], []⟩

def halvesArguments (input : String) : List String :=
  ["resolve", input, "--scope", "s", "--registry", "r"]

theorem parse_name : Selector.parse "a" = .ok (.root [.selector [.leaf .tag "a"]]) := by
  have ha : ComponentAt (.node (.leaf .tag "a")) "a".toList [] := .tag ⟨by decide, by decide⟩ rfl
  refine parse_eq_ok_iff.2 ⟨_, rfl, ?_⟩
  refine ha.reads rfl rfl ?_
  exact .done tight_nil (.done rfl rfl)

theorem accepted_name : Accepted ['a'] :=
  .inr ⟨_, parse_name⟩

theorem resolve_halves :
    halves.get? ["r"] = none ∧
      (run halves (halvesArguments "x")).exitCode = 0 ∧
      (run (run halves (halvesArguments "x")).files (halvesArguments "y")).exitCode = 0 ∧
      (run halves (halvesArguments "z")).output = (run halves (halvesArguments "x")).output ++
        (run (run halves (halvesArguments "x")).files (halvesArguments "y")).output ∧
      ∃ bytes, (run halves (halvesArguments "z")).files.get? ["r"] = some bytes ∧
        (run (run halves (halvesArguments "x")).files (halvesArguments "y")).files.get?
          ["r"] = some bytes := by
  have hargs (input : String) (hinput : input ∈ ["x", "y", "z"]) :
      Command.parse? (halvesArguments input) =
        some (.resolve input ⟨"s", .locally⟩ (some "r")) := by
    revert input
    decide +kernel
  have haccepted : ∀ l ∈ lines "a\n\na\n".toList, Accepted l := by
    have hlines : lines "a\n\na\n".toList = [['a'], [], ['a']] := by decide
    rw [hlines]
    intro l hl
    simp only [List.mem_cons, List.not_mem_nil, or_false] at hl
    rcases hl with rfl | rfl | rfl
    · exact accepted_name
    · exact .inl (List.forall_mem_nil _)
    · exact accepted_name
  have hnew : halves.get? ["r"] = none := by decide
  have hfind₁ : halves.find "x" = .ok ["x"] := by cbv
  have hfind₂ : halves.find "y" = .ok ["y"] := by cbv
  have hfind : halves.find "z" = .ok ["z"] := by cbv
  have hlines : lines "a\n\na\n".toList = lines "a\n".toList ++ lines "\na\n".toList := by decide
  have hwritable : halves.findForWriting "r" = .ok ["r"] := by cbv
  have hdistinct : halves.find "y" ≠ .ok ["r"] := by
    rw [hfind₂]
    decide
  obtain ⟨hfirst, hsecond, -, hcarried⟩ := resolve_carried (hargs "x" (by decide))
    (hargs "y" (by decide)) (hargs "z" (by decide)) (Files.read_of_text hfind₁ (by decide) rfl)
    (Files.read_of_text hfind₂ (by decide) rfl) (Files.read_of_text hfind (by decide) rfl) hlines
    haccepted hwritable hwritable rfl (.inl hnew) hdistinct
  exact ⟨hnew, hfirst, hsecond, hcarried⟩

end ScopedStyles.CommandLine
