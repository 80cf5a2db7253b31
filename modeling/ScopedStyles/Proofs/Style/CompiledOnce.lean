import ScopedStyles.Style.Engine

namespace ScopedStyles.Style

namespace Cache

theorem findFrom_map (key : String) (i j : Nat) (entries : List (String × CompiledStyle)) :
    (findFrom key i entries).map (·.2) = (findFrom key j entries).map (·.2) := by
  induction entries generalizing i j with
  | nil => rfl
  | cons entry rest ih =>
    unfold findFrom
    split
    · rfl
    · exact ih (i + 1) (j + 1)

theorem get?_push (c : Cache) (key k : String) (style : CompiledStyle) :
    (c.push key style).get? k = (c.get? k).or (if key = k then some style else none) := by
  unfold get? find? push
  induction c.entries with
  | nil =>
    change Option.map _ (if key = k then some (0, style) else none) = _
    split <;> rfl
  | cons entry rest ih =>
    rw [List.cons_append]
    unfold findFrom
    split
    · rfl
    · rw [findFrom_map k 1 0 (rest ++ _), findFrom_map k 1 0 rest]
      exact ih

theorem get?_eq_find? (c : Cache) (key : String) : c.get? key = (c.find? key).map (·.2) :=
  rfl

end Cache

variable {g : Call → Except Error CompiledCss} {e : Engine}

def styleOf (g : Call → Except Error CompiledCss) (call : Call) : Except Error CompiledStyle :=
  match g call with
  | .error error => .error error
  | .ok out =>
    .ok ⟨call.key, if startsBlock out.css then bareBlock call.key out.css else out.css, out.tokens⟩

theorem callOf_key (key source : String) : (callOf key source).key = key := by
  unfold callOf
  split
  · rfl
  · rfl

theorem compile_spec (g : Call → Except Error CompiledCss) (e : Engine) (key source : String) :
    (compile (.ofFunction g) e key source).1 = styleOf g (callOf key source) ∧
      (compile (.ofFunction g) e key source).2.calls = e.calls ++ [callOf key source] ∧
      (compile (.ofFunction g) e key source).2.cache = e.cache := by
  unfold compile styleOf Compiler.ofFunction
  rw [callOf_key]
  dsimp only
  cases g (callOf key source) with
  | error error => exact ⟨rfl, rfl, rfl⟩
  | ok out =>
    dsimp only
    by_cases hblock : startsBlock out.css = true
    · rw [if_pos hblock, if_pos hblock]
      exact ⟨rfl, rfl, rfl⟩
    · rw [if_neg hblock, if_neg hblock]
      exact ⟨rfl, rfl, rfl⟩

/-- A style is in the cache exactly if a call under its key has compiled to it. -/
def CompiledOnce (g : Call → Except Error CompiledCss) (e : Engine) : Prop :=
  ∀ key style, e.cache.get? key = some style ↔
    ∃ call ∈ e.calls, call.key = key ∧ styleOf g call = .ok style

theorem compiledOnce_new (g : Call → Except Error CompiledCss) : CompiledOnce g .new := by
  intro key style
  constructor
  · intro h
    cases h
  · rintro ⟨call, hcall, -⟩
    cases hcall

theorem CompiledOnce.failed {e' : Engine} {call : Call} {error : Error} (h : CompiledOnce g e)
    (hcall : styleOf g call = .error error) (hcalls : e'.calls = e.calls ++ [call])
    (hcache : e'.cache = e.cache) : CompiledOnce g e' := by
  intro key style
  rw [hcache, hcalls, h key style]
  constructor
  · rintro ⟨earlier, hmem, hearlier⟩
    exact ⟨earlier, List.mem_append_left _ hmem, hearlier⟩
  · rintro ⟨earlier, hmem, hkey, hstyle⟩
    rcases List.mem_append.1 hmem with hmem | hmem
    · exact ⟨earlier, hmem, hkey, hstyle⟩
    · cases List.mem_singleton.1 hmem
      rw [hcall] at hstyle
      cases hstyle

theorem CompiledOnce.compiled {e' : Engine} {call : Call} {style : CompiledStyle}
    (h : CompiledOnce g e) (hcall : styleOf g call = .ok style)
    (hnew : e.cache.get? call.key = none) (hcalls : e'.calls = e.calls ++ [call])
    (hcache : e'.cache = e.cache.push call.key style) : CompiledOnce g e' := by
  intro key found
  rw [hcache, hcalls, Cache.get?_push]
  constructor
  · intro hfound
    rcases Option.or_eq_some_iff.1 hfound with hfound | ⟨-, hfound⟩
    · obtain ⟨earlier, hmem, hearlier⟩ := (h key found).1 hfound
      exact ⟨earlier, List.mem_append_left _ hmem, hearlier⟩
    · split at hfound
      · next hkey =>
        cases hfound
        exact ⟨call, List.mem_append_right _ (List.mem_singleton.2 rfl), hkey, hcall⟩
      · cases hfound
  · rintro ⟨earlier, hmem, hkey, hstyle⟩
    rcases List.mem_append.1 hmem with hmem | hmem
    · rw [(h key found).2 ⟨earlier, hmem, hkey, hstyle⟩]
      rfl
    · cases List.mem_singleton.1 hmem
      rw [hcall] at hstyle
      cases hstyle
      rw [← hkey, hnew, if_pos rfl]
      rfl

def Engine.style (g : Call → Except Error CompiledCss) (e : Engine) (key source : String) :
    Except Error CompiledStyle :=
  match e.cache.get? key with
  | some style => .ok style
  | none => styleOf g (callOf key source)

theorem Engine.style_of_some {key source : String} {style : CompiledStyle}
    (h : e.cache.get? key = some style) : e.style g key source = .ok style := by
  unfold Engine.style
  rw [h]

theorem Engine.style_of_none {key source : String} (h : e.cache.get? key = none) :
    e.style g key source = styleOf g (callOf key source) := by
  unfold Engine.style
  rw [h]

/-- What a caller sees of a token: all but its place in the cache. -/
def seen (r : Except Error Token) : Except Error (CompiledStyle × Variables) :=
  r.map fun t => (t.style, t.vars)

/-- What a lookup returns, and that later lookups under its key find the style again. -/
structure Obtained (g : Call → Except Error CompiledCss) (e : Engine) (key source : String)
    (vars : Variables) (r : Except Error Token × Engine) : Prop where
  result : seen r.1 = (e.style g key source).map fun style => (style, vars)
  compiledOnce : CompiledOnce g r.2
  found : ∀ style, e.style g key source = .ok style → r.2.cache.get? key = some style
  others : ∀ k, k ≠ key → r.2.cache.get? k = e.cache.get? k

theorem obtain_spec (h : CompiledOnce g e) (key source : String) (vars : Variables) :
    Obtained g e key source vars (obtain (.ofFunction g) e key source vars) := by
  have hget := e.cache.get?_eq_find? key
  unfold obtain
  cases hfind : e.cache.find? key with
  | some found =>
    rw [hfind] at hget
    have hstyle : e.style g key source = .ok found.2 := Engine.style_of_some hget
    refine ⟨hstyle ▸ rfl, h, ?_, fun k _ => rfl⟩
    intro style hs
    cases hstyle.symm.trans hs
    exact hget
  | none =>
    rw [hfind] at hget
    have hkey := callOf_key key source
    have hnew : e.cache.get? (callOf key source).key = none := by
      rw [hkey]
      exact hget
    obtain ⟨hresult, hcalls, hcache⟩ := compile_spec g e key source
    rw [← Engine.style_of_none hget] at hresult
    cases hcompile : compile (.ofFunction g) e key source with
    | mk result e' =>
      rw [hcompile] at hresult hcalls hcache
      dsimp only at hresult hcalls hcache
      have hcall : styleOf g (callOf key source) = result :=
        (Engine.style_of_none hget).symm.trans hresult.symm
      cases result with
      | error error =>
        refine ⟨hresult ▸ rfl, h.failed hcall hcalls hcache, ?_, ?_⟩
        · intro style hs
          cases hresult.trans hs
        · intro k _
          exact congrArg (Cache.get? · k) hcache
      | ok style =>
        have hpush : e'.cache.push key style = e.cache.push (callOf key source).key style := by
          rw [hcache, hkey]
        refine ⟨hresult ▸ rfl, h.compiled hcall hnew hcalls hpush, ?_, ?_⟩
        · intro found hs
          cases hresult.trans hs
          change (e'.cache.push key style).get? key = some style
          rw [hcache, Cache.get?_push, hget, if_pos rfl]
          rfl
        · intro k hk
          change (e'.cache.push key style).get? k = e.cache.get? k
          rw [hcache, Cache.get?_push, if_neg (Ne.symm hk), Option.or_none]

end ScopedStyles.Style
