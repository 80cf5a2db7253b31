import Mathlib.Data.List.Induction
import ScopedStyles.Proofs.Style.Identity

namespace ScopedStyles.Style

variable {c : Compiler} {e : Engine}

def styled (call : Call) (out : CompiledCss) : CompiledStyle :=
  ⟨call.key, if startsBlock out.css then bareBlock call.key out.css else out.css, out.tokens⟩

namespace Engine

def refused (e : Engine) (call : Call) : Engine :=
  { e with calls := e.calls ++ [call] }

def extended (e : Engine) (call : Call) (out : CompiledCss) : Engine :=
  ⟨e.cache.push call.key (styled call out),
    if startsBlock out.css then e.sink else e.sink.insert call.key out.css, e.calls ++ [call]⟩

end Engine

/-- A lookup finds its style, or it is the first one under its key and asks the compiler once. -/
inductive Lookup (c : Compiler) (e : Engine) (key source : String) (vars : Variables) :
    Except Error Token × Engine → Prop
  | hit {found : Nat × CompiledStyle} (h : e.cache.find? key = some found) :
    Lookup c e key source vars (.ok ⟨found.1, found.2, vars⟩, e)
  | failed {error : Error} (h : e.cache.find? key = none)
    (hcall : c e.calls (callOf key source) = .error error) :
    Lookup c e key source vars (.error error, e.refused (callOf key source))
  | compiled {out : CompiledCss} (h : e.cache.find? key = none)
    (hcall : c e.calls (callOf key source) = .ok out) :
    Lookup c e key source vars
      (.ok ⟨e.cache.size, styled (callOf key source) out, vars⟩, e.extended (callOf key source) out)

theorem obtain_lookup (c : Compiler) (e : Engine) (key source : String) (vars : Variables) :
    Lookup c e key source vars (obtain c e key source vars) := by
  simp only [obtain]
  cases hfind : e.cache.find? key with
  | some found => exact .hit hfind
  | none =>
    simp only [compile]
    cases hcall : c e.calls (callOf key source) with
    | error error => exact .failed hfind hcall
    | ok out =>
      have hcompiled : Lookup c e key source vars _ := .compiled hfind hcall
      simp only [styled, Engine.extended, callOf_key] at hcompiled
      cases hblock : startsBlock out.css with
      | true => simpa only [hblock, if_true] using hcompiled
      | false => simpa only [hblock, if_false, Bool.false_eq_true] using hcompiled

section Keeps

variable {P : Engine → Prop}
  (hobtain : ∀ e key source vars, P e → P (obtain c e key source vars).2)

include hobtain

theorem gather_keeps (h : P e) (hash : String) (position : Nat) (parts : Parts)
    (interpolations : List Interpolation) :
    P (gather c hash e position parts interpolations).2 := by
  induction interpolations generalizing e position parts with
  | nil => exact h
  | cons i rest ih =>
    cases i with
    | empty => exact ih h _ _
    | value text => exact ih h _ _
    | mixin token => exact ih h _ _
    | declarations d =>
      have hdeclare : P (declare c e d).2 := hobtain e _ _ _ h
      rw [gather]
      cases hresult : declare c e d with
      | mk result e' =>
        rw [hresult] at hdeclare
        cases result with
        | error error => exact hdeclare
        | ok token => exact ih hdeclare _ _

theorem css_keeps (h : P e) (fragments : List String) (interpolations : List Interpolation) :
    P (css c e fragments interpolations).2 := by
  simp only [css]
  split
  · exact h
  · have hgather := gather_keeps hobtain h (templateHash fragments) 1 .empty interpolations
    cases hresult : gather c (templateHash fragments) e 1 .empty interpolations with
    | mk result e' =>
      rw [hresult] at hgather
      cases result with
      | error error => exact hgather
      | ok parts => exact hobtain e' _ _ _ hgather

/-- What every lookup keeps holds after any requests to a new engine. -/
theorem Engine.after_keeps (hnew : P .new) (requests : List Request) :
    P (Engine.after c requests) := by
  induction requests using List.reverseRecOn with
  | nil => exact hnew
  | append_singleton requests r ih =>
    rw [Engine.after_append]
    cases r with
    | css fragments interpolations => exact css_keeps hobtain ih fragments interpolations
    | declarations d => exact hobtain _ _ _ _ ih

end Keeps

end ScopedStyles.Style
