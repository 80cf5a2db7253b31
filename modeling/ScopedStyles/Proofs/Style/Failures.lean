import ScopedStyles.Proofs.Style.Inlining
import ScopedStyles.Proofs.Style.Registration

namespace ScopedStyles.Style

variable {c : Compiler} {e e' e₁ e₂ : Engine} {key source : String} {vars : Variables} {t : Token}
  {d : Declarations} {ds : List Declarations} {ts : List Token} {error : Error}
  {fragments : List String} {is : List Interpolation}

namespace Sink

theorem isPrefix_insert (s : Sink) (key css : String) :
    s.entries <+: (s.insert key css).entries := by
  rw [insert]
  split
  · exact List.prefix_rfl
  · exact List.prefix_append _ _

theorem get?_insert_of_ne (s : Sink) (css : String) {key k : String} (h : k ≠ key) :
    (s.insert key css).get? k = s.get? k := by
  rw [insert]
  split
  · rfl
  · have hlast : List.lookup k [(key, css)] = none := by
      rw [List.lookup_cons, beq_false_of_ne h]
      rfl
    rw [get?, get?, List.lookup_append, hlast, Option.or_none]

end Sink

structure Grown (e e' : Engine) : Prop where
  cache : e.cache.entries <+: e'.cache.entries
  sink : e.sink.entries <+: e'.sink.entries
  calls : e.calls <+: e'.calls
  absent : ∀ key, e'.cache.find? key = none → e'.sink.get? key = e.sink.get? key

namespace Grown

theorem refl (e : Engine) : Grown e e :=
  ⟨List.prefix_rfl, List.prefix_rfl, List.prefix_rfl, fun _ _ => rfl⟩

theorem find?_eq_none (h : Grown e e') (hkey : e'.cache.find? key = none) :
    e.cache.find? key = none := by
  cases hfind : e.cache.find? key with
  | none => rfl
  | some found => exact (Cache.find?_of_isPrefix h.cache hfind).symm.trans hkey

theorem trans (h : Grown e e₁) (h' : Grown e₁ e') : Grown e e' where
  cache := h.cache.trans h'.cache
  sink := h.sink.trans h'.sink
  calls := h.calls.trans h'.calls
  absent key hkey := (h'.absent key hkey).trans (h.absent key (h'.find?_eq_none hkey))

theorem refused (e : Engine) (call : Call) : Grown e (e.refused call) :=
  ⟨List.prefix_rfl, List.prefix_rfl, List.prefix_append _ _, fun _ _ => rfl⟩

theorem extended {call : Call} (hnew : e.cache.find? call.key = none) (out : CompiledCss) :
    Grown e (e.extended call out) where
  cache := List.prefix_append _ _
  sink := by
    rw [Engine.extended]
    dsimp only
    split
    · exact List.prefix_rfl
    · exact e.sink.isPrefix_insert call.key out.css
  calls := List.prefix_append _ _
  absent key hkey := by
    have hne : key ≠ call.key := by
      rintro rfl
      rw [Engine.extended, Cache.find?_push hnew] at hkey
      cases hkey
    rw [Engine.extended]
    dsimp only
    split
    · rfl
    · exact e.sink.get?_insert_of_ne out.css hne

end Grown

theorem obtain_grown (c : Compiler) (e : Engine) (key source : String) (vars : Variables) :
    Grown e (obtain c e key source vars).2 := by
  have hlookup := obtain_lookup c e key source vars
  generalize obtain c e key source vars = r at hlookup
  cases hlookup with
  | hit => exact .refl e
  | failed => exact .refused e _
  | compiled hnew =>
    rw [← callOf_key key source] at hnew
    exact .extended hnew _

theorem declare_grown (c : Compiler) (e : Engine) (d : Declarations) :
    Grown e (declare c e d).2 :=
  obtain_grown c e _ _ _

theorem declareAll_grown (c : Compiler) (e : Engine) (ds : List Declarations) :
    Grown e (declareAll c e ds).2 := by
  induction ds generalizing e with
  | nil => exact .refl e
  | cons d ds ih =>
    have hfirst := declare_grown c e d
    rw [declareAll]
    cases hdeclare : declare c e d with
    | mk result e₁ =>
      rw [hdeclare] at hfirst
      cases result with
      | error error => exact hfirst
      | ok token =>
        have hrest := hfirst.trans (ih e₁)
        dsimp only
        cases hall : declareAll c e₁ ds with
        | mk results e₂ =>
          rw [hall] at hrest
          cases results with
          | error error => exact hrest
          | ok tokens => exact hrest

def Refuses (c : Compiler) (e e' : Engine) (error : Error) : Prop :=
  ∃ call, e' = e.refused call ∧ e.cache.find? call.key = none ∧ c e.calls call = .error error

theorem obtain_refuses (h : obtain c e key source vars = (.error error, e')) :
    Refuses c e e' error := by
  have hlookup := obtain_lookup c e key source vars
  rw [h] at hlookup
  cases hlookup with
  | failed hnew hcall =>
    rw [← callOf_key key source] at hnew
    exact ⟨_, rfl, hnew, hcall⟩

theorem declareAll_refuses (h : declareAll c e ds = (.error error, e')) :
    ∃ e₁, Grown e e₁ ∧ Refuses c e₁ e' error := by
  induction ds generalizing e with
  | nil => cases h
  | cons d ds ih =>
    rcases declareAll_cons_error h with hfirst | ⟨t, e₁, hfirst, hrest⟩
    · exact ⟨e, .refl e, obtain_refuses hfirst⟩
    · obtain ⟨e₂, hgrown, hrefuses⟩ := ih hrest
      have hstep := declare_grown c e d
      rw [hfirst] at hstep
      exact ⟨e₂, hstep.trans hgrown, hrefuses⟩

theorem obtain_again (h : obtain c e key source vars = (.ok t, e₁))
    (hcache : e₁.cache.entries <+: e₂.cache.entries) (c' : Compiler) :
    obtain c' e₂ key source vars = (.ok t, e₂) := by
  have hfound : e₂.cache.find? key = some (t.entry, t.style) ∧ t.vars = vars := by
    have hlookup := obtain_lookup c e key source vars
    rw [h] at hlookup
    cases hlookup with
    | hit hfind => exact ⟨Cache.find?_of_isPrefix hcache hfind, rfl⟩
    | @compiled out hnew _ =>
      have hpush := Cache.find?_push hnew (styled (callOf key source) out)
      rw [Engine.extended, callOf_key] at hcache
      exact ⟨Cache.find?_of_isPrefix hcache hpush, rfl⟩
  obtain ⟨hfind, rfl⟩ := hfound
  rw [obtain, hfind]

theorem declareAll_again (h : declareAll c e ds = (.ok ts, e₁))
    (hcache : e₁.cache.entries <+: e₂.cache.entries) (c' : Compiler) :
    declareAll c' e₂ ds = (.ok ts, e₂) := by
  induction ds generalizing e ts with
  | nil =>
    cases h
    rfl
  | cons d ds ih =>
    obtain ⟨t, e₀, rest, hfirst, hrest, rfl⟩ := declareAll_cons_ok h
    have hgrown := declareAll_grown c e₀ ds
    rw [hrest] at hgrown
    have hagain : declare c' e₂ d = (.ok t, e₂) :=
      obtain_again hfirst (hgrown.cache.trans hcache) c'
    rw [declareAll, hagain]
    dsimp only
    rw [ih hrest]

section Retry

variable {f : Call → Except Error CompiledCss} {n : Nat}

/-- The compiler is a function of the call alone, whenever the call is not the one at this place. -/
def PureBut (c : Compiler) (f : Call → Except Error CompiledCss) (place : Nat) : Prop :=
  ∀ earlier call, earlier.length + 1 ≠ place → c earlier call = f call

/-- The same answer, cache and sink. The calls may differ. -/
structure SameOutcome {α : Type} (r r' : Except Error α × Engine) : Prop where
  answer : r.1 = r'.1
  cache : r.2.cache = r'.2.cache
  sink : r.2.sink = r'.2.sink

theorem obtain_congr {c' : Compiler} (hcache : e.cache = e'.cache) (hsink : e.sink = e'.sink)
    (hcall : c e.calls (callOf key source) = c' e'.calls (callOf key source)) :
    SameOutcome (obtain c e key source vars) (obtain c' e' key source vars) := by
  obtain ⟨cache, sink, calls⟩ := e
  obtain ⟨cache', sink', calls'⟩ := e'
  cases hcache
  cases hsink
  simp only [obtain, compile, hcall]
  cases cache.find? key with
  | some found => exact ⟨rfl, rfl, rfl⟩
  | none =>
    cases c' calls' (callOf key source) with
    | error error => exact ⟨rfl, rfl, rfl⟩
    | ok out =>
      by_cases hblock : startsBlock out.css = true
      · simp only [hblock, if_true]
        exact ⟨rfl, rfl, rfl⟩
      · simp only [hblock, if_false, Bool.false_eq_true]
        exact ⟨rfl, rfl, rfl⟩

theorem declareAll_cons_same {c' : Compiler} {e₃ : Engine} (hfirst : declare c e d = (.ok t, e₁))
    (hfirst' : declare c' e' d = (.ok t, e₃))
    (hrest : SameOutcome (declareAll c e₁ ds) (declareAll c' e₃ ds)) :
    SameOutcome (declareAll c e (d :: ds)) (declareAll c' e' (d :: ds)) := by
  rw [declareAll, declareAll, hfirst, hfirst']
  dsimp only
  generalize declareAll c e₁ ds = r at hrest
  generalize declareAll c' e₃ ds = r' at hrest
  obtain ⟨results, e₄⟩ := r
  obtain ⟨results', e₅⟩ := r'
  obtain ⟨rfl, hcache, hsink⟩ := hrest
  cases results with
  | error error => exact ⟨rfl, hcache, hsink⟩
  | ok tokens => exact ⟨rfl, hcache, hsink⟩

theorem declareAll_congr (hpure : PureBut c f n) (hn : n ≤ e.calls.length)
    (hcache : e.cache = e'.cache) (hsink : e.sink = e'.sink) (ds : List Declarations) :
    SameOutcome (declareAll c e ds) (declareAll (.ofFunction f) e' ds) := by
  induction ds generalizing e e' with
  | nil => exact ⟨rfl, hcache, hsink⟩
  | cons d ds ih =>
    have hsame : SameOutcome (declare c e d) (declare (.ofFunction f) e' d) :=
      obtain_congr hcache hsink (hpure _ _ (by omega))
    have hgrown := declare_grown c e d
    cases hfirst : declare c e d with
    | mk result e₁ =>
      cases hfirst' : declare (.ofFunction f) e' d with
      | mk result' e₂ =>
        rw [hfirst, hfirst'] at hsame
        rw [hfirst] at hgrown
        obtain ⟨rfl, hcache₁, hsink₁⟩ := hsame
        cases result with
        | error error =>
          rw [declareAll, declareAll, hfirst, hfirst']
          exact ⟨rfl, hcache₁, hsink₁⟩
        | ok token =>
          have hrest := ih (hn.trans hgrown.calls.length_le) hcache₁ hsink₁
          exact declareAll_cons_same hfirst hfirst' hrest

theorem css_congr (hpure : PureBut c f n) (hn : n ≤ e.calls.length)
    (harity : fragments.length = is.length + 1)
    (hall : SameOutcome (declareAll c e (mappingsOf is))
      (declareAll (.ofFunction f) e' (mappingsOf is))) :
    SameOutcome (css c e fragments is) (css (.ofFunction f) e' fragments is) := by
  have hgrown := declareAll_grown c e (mappingsOf is)
  rw [css_eq_lookup harity, css_eq_lookup harity]
  generalize declareAll c e (mappingsOf is) = r at hall hgrown
  generalize declareAll (.ofFunction f) e' (mappingsOf is) = r' at hall
  obtain ⟨results, e₁⟩ := r
  obtain ⟨results', e₂⟩ := r'
  obtain ⟨rfl, hcache, hsink⟩ := hall
  cases results with
  | error error => exact ⟨rfl, hcache, hsink⟩
  | ok tokens =>
    have hlength : n ≤ e₁.calls.length := hn.trans hgrown.calls.length_le
    exact obtain_congr hcache hsink (hpure _ _ (by omega))

theorem obtain_pure (hpure : PureBut c f n) (h : obtain c e key source vars = (.ok t, e₁))
    (hn : e₁.calls.length < n) : obtain (.ofFunction f) e key source vars = (.ok t, e₁) := by
  have hlookup := obtain_lookup c e key source vars
  rw [h] at hlookup
  cases hlookup with
  | hit => exact obtain_again h List.prefix_rfl _
  | compiled =>
    rw [Engine.extended, List.length_append, List.length_singleton] at hn
    have hcall : ∀ call, c e.calls call = f call := fun call => hpure _ call (by omega)
    rw [← h]
    simp only [obtain, compile, Compiler.ofFunction, hcall]

theorem declareAll_pure (hpure : PureBut c f n) (h : declareAll c e ds = (.ok ts, e₁))
    (hn : e₁.calls.length < n) : declareAll (.ofFunction f) e ds = (.ok ts, e₁) := by
  induction ds generalizing e ts with
  | nil =>
    cases h
    rfl
  | cons d ds ih =>
    obtain ⟨t, e₀, rest, hfirst, hrest, rfl⟩ := declareAll_cons_ok h
    have hgrown := declareAll_grown c e₀ ds
    rw [hrest] at hgrown
    have hpureFirst : declare (.ofFunction f) e d = (.ok t, e₀) :=
      obtain_pure hpure hfirst (hgrown.calls.length_le.trans_lt hn)
    rw [declareAll, hpureFirst]
    dsimp only
    rw [ih hrest]

/-- The mappings in front of the one that failed are found again. From it on the compiler is pure. -/
theorem declareAll_retry (h : declareAll c e ds = (.error error, e'))
    (hpure : PureBut c f e'.calls.length) :
    SameOutcome (declareAll c e' ds) (declareAll (.ofFunction f) e ds) := by
  induction ds generalizing e with
  | nil => cases h
  | cons d ds ih =>
    rcases declareAll_cons_error h with hfirst | ⟨t, e₁, hfirst, hrest⟩
    -- nothing has been added, so the pure compiler sets out from the same styles
    · obtain ⟨call, rfl, -, -⟩ := obtain_refuses hfirst
      have hcache : (e.refused call).cache = e.cache := rfl
      have hsink : (e.refused call).sink = e.sink := rfl
      exact declareAll_congr hpure le_rfl hcache hsink _
    -- the first mapping is found again, as lookups only add to the cache
    · obtain ⟨e₂, hgrown, call, rfl, -, -⟩ := declareAll_refuses hrest
      have hcache : e₁.cache.entries <+: (e₂.refused call).cache.entries := hgrown.cache
      have hagain : declare c (e₂.refused call) d = (.ok t, e₂.refused call) :=
        obtain_again hfirst hcache c
      have hlength : e₁.calls.length < (e₂.refused call).calls.length := by
        rw [Engine.refused, List.length_append, List.length_singleton]
        exact Nat.lt_succ_of_le hgrown.calls.length_le
      exact declareAll_cons_same hagain (obtain_pure hpure hfirst hlength) (ih hrest)

end Retry

def Engine.RegistersCached (e : Engine) : Prop :=
  ∀ key, e.cache.find? key = none → e.sink.get? key = none

theorem Engine.after_registersCached (c : Compiler) (requests : List Request) :
    (Engine.after c requests).RegistersCached := by
  intro key hkey
  exact (Engine.after_recorded c requests).lookup_none (Cache.notMem_of_findFrom hkey)

/-- What a call has done that failed with an error of the compiler. -/
structure Failed (c : Compiler) (e e' : Engine) (ds : List Declarations) (error : Error) : Prop where
  cache : e.cache.entries <+: e'.cache.entries
  sink : e.sink.entries <+: e'.sink.entries
  /-- The new entries are those of the mappings up to the one that failed. -/
  added : e'.cache = (declareAll c e ds).2.cache ∧ e'.sink = (declareAll c e ds).2.sink
  last : ∃ before call, e'.calls = before ++ [call] ∧ e.calls <+: before ∧
    c before call = .error error ∧ e'.cache.get? call.key = none ∧
      e'.sink.get? call.key = e.sink.get? call.key ∧
        (e.RegistersCached → e'.sink.get? call.key = none)

theorem Refuses.failed (h : Refuses c e₁ e' error) (hgrown : Grown e e₁)
    (hcache : e₁.cache = (declareAll c e ds).2.cache) (hsink : e₁.sink = (declareAll c e ds).2.sink) :
    Failed c e e' ds error := by
  obtain ⟨call, rfl, hnew, hcall⟩ := h
  have hget : e₁.cache.get? call.key = none := by rw [Cache.get?_eq_find?, hnew, Option.map_none]
  have habsent := hgrown.absent call.key hnew
  have hunregistered : e.RegistersCached → e₁.sink.get? call.key = none :=
    fun hregisters => habsent.trans (hregisters _ (hgrown.find?_eq_none hnew))
  exact ⟨hgrown.cache, hgrown.sink, ⟨hcache, hsink⟩, e₁.calls, call, rfl, hgrown.calls, hcall, hget,
    habsent, hunregistered⟩

theorem css_of_arity (harity : fragments.length ≠ is.length + 1) :
    css c e fragments is = (.error (.templateArity fragments.length is.length), e) := by
  rw [css, if_pos harity]

theorem css_refuses (harity : fragments.length = is.length + 1)
    (h : css c e fragments is = (.error error, e')) : Failed c e e' (mappingsOf is) error := by
  rw [css_eq_lookup harity] at h
  cases hall : declareAll c e (mappingsOf is) with
  | mk results e₀ =>
    rw [hall] at h
    cases results with
    | error error =>
      cases h
      obtain ⟨e₁, hgrown, hrefuses⟩ := declareAll_refuses hall
      obtain ⟨call, rfl, -, -⟩ := id hrefuses
      exact hrefuses.failed hgrown (by rw [hall]; rfl) (by rw [hall]; rfl)
    | ok tokens =>
      have hgrown := declareAll_grown c e (mappingsOf is)
      rw [hall] at hgrown
      exact (obtain_refuses h).failed hgrown (by rw [hall]) (by rw [hall])

theorem css_retry (h : css c e fragments is = (.error error, e'))
    {f : Call → Except Error CompiledCss} (hpure : PureBut c f e'.calls.length) :
    SameOutcome (css c e' fragments is) (css (.ofFunction f) e fragments is) := by
  by_cases harity : fragments.length = is.length + 1
  · rw [css_eq_lookup harity] at h
    cases hall : declareAll c e (mappingsOf is) with
    | mk results e₀ =>
      rw [hall] at h
      cases results with
      | error error =>
        cases h
        exact css_congr hpure le_rfl harity (declareAll_retry hall hpure)
      | ok tokens =>
        obtain ⟨call, rfl, -, -⟩ := obtain_refuses h
        refine css_congr hpure le_rfl harity ?_
        have hcache : e₀.cache.entries <+: (e₀.refused call).cache.entries := List.prefix_rfl
        rw [declareAll_again hall hcache c, declareAll_pure hpure hall (by simp [Engine.refused])]
        exact ⟨rfl, rfl, rfl⟩
  · rw [css_of_arity harity] at h
    cases h
    rw [css_of_arity harity, css_of_arity harity]
    exact ⟨rfl, rfl, rfl⟩

/-- Compilers are asked to fail with compile errors alone. -/
def Compiler.FailsToCompile (c : Compiler) : Prop :=
  ∀ earlier call error, c earlier call = .error error → ∃ text, error = .compile text

/-- A call of the wrong arity fails at once and leaves the engine as it was, whatever is interpolated.
Any other call that fails leaves what its mappings in front of the failure came to, and nothing under the
key that was not compiled. So the error tells which of the two it was, unless the compiler fails with errors
that are not its own. If it is pure apart from this failure, then the call made once more gives what
it would have given without it. -/
theorem css_failed (h : css c e fragments is = (.error error, e')) :
    (fragments.length ≠ is.length + 1 →
        error = .templateArity fragments.length is.length ∧ e' = e) ∧
      (fragments.length = is.length + 1 → Failed c e e' (mappingsOf is) error) ∧
      (∀ text, error = .compile text → Failed c e e' (mappingsOf is) error) ∧
      (c.FailsToCompile → ∀ m n, error = .templateArity m n → e' = e) ∧
      ∀ f, PureBut c f e'.calls.length →
        SameOutcome (css c e' fragments is) (css (.ofFunction f) e fragments is) := by
  have hwrong (harity : fragments.length ≠ is.length + 1) :
      error = .templateArity fragments.length is.length ∧ e' = e := by
    rw [css_of_arity harity] at h
    cases h
    exact ⟨rfl, rfl⟩
  refine ⟨hwrong, fun harity => css_refuses harity h, ?_, ?_, fun f => css_retry h⟩
  · intro text htext
    by_cases harity : fragments.length = is.length + 1
    · exact css_refuses harity h
    · cases (hwrong harity).1.symm.trans htext
  · intro hcompiler m n harityError
    by_cases harity : fragments.length = is.length + 1
    · obtain ⟨before, call, -, -, hcall, -⟩ := (css_refuses harity h).last
      obtain ⟨text, htext⟩ := hcompiler before call error hcall
      cases htext.symm.trans harityError
    · exact (hwrong harity).2

/-- A compiler that does not keep to compile errors: the error is that of a wrong arity, and yet the compiler
has been asked. -/
example : css (.ofFunction fun _ => .error (.templateArity 7 7)) .new ["a"] [] =
    (.error (.templateArity 7 7), ⟨.empty, .empty, [callOf (shortHash (shortHash "a")) "a"]⟩) := by
  decide +kernel

theorem failingAt_pureBut (f : Call → Except Error CompiledCss) (count : Nat) (text : String) :
    PureBut (.failingAt (.ofFunction f) count text) f (count + 1) := by
  intro earlier call hlength
  have hcount : earlier.length ≠ count := by omega
  rw [Compiler.failingAt, if_neg hcount]
  rfl

def failingOnce : Compiler :=
  .failingAt (.ofFunction echoed) 1 "out of memory"

theorem failingOnce_failsToCompile : failingOnce.FailsToCompile := by
  intro earlier call error h
  rw [failingOnce, Compiler.failingAt] at h
  split at h
  · cases h
    exact ⟨_, rfl⟩
  · cases h

theorem css_failed_retried :
    (∃ e', css failingOnce .new ["a ", " ", ""] [] = (.error (.templateArity 3 0), e') ∧ e' = .new) ∧
    ∃ e', css failingOnce .new ["a ", " ", " ", ""] repeated =
        (.error (.compile "out of memory"), e') ∧
      Failed failingOnce .new e' (mappingsOf repeated) (.compile "out of memory") ∧
      e'.cache.size = 1 ∧
      SameOutcome (css failingOnce e' ["a ", " ", " ", ""] repeated)
        (css (.ofFunction echoed) .new ["a ", " ", " ", ""] repeated) := by
  have harity : css failingOnce .new ["a ", " ", ""] [] = (.error (.templateArity 3 0), .new) := rfl
  have h : css failingOnce .new ["a ", " ", " ", ""] repeated = (.error (.compile "out of memory"),
      (css failingOnce .new ["a ", " ", " ", ""] repeated).2) :=
    Prod.ext (by decide +kernel) rfl
  have hlength : (css failingOnce .new ["a ", " ", " ", ""] repeated).2.calls.length = 2 := by
    decide +kernel
  refine ⟨⟨_, harity, (css_failed harity).2.2.2.1 failingOnce_failsToCompile _ _ rfl⟩, ?_⟩
  obtain ⟨-, -, hfailed, -, hretry⟩ := css_failed h
  refine ⟨_, h, hfailed _ rfl, by decide +kernel, hretry echoed ?_⟩
  rw [hlength]
  exact failingAt_pureBut echoed 1 "out of memory"

end ScopedStyles.Style
