import Mathlib.Data.List.Nodup
import ScopedStyles.Proofs.Style.Transparency

namespace ScopedStyles.Style

variable {c : Compiler} {e e' e'' : Engine} {calls : List Call}
  {entries : List (String × CompiledStyle)} {key : String}

namespace Cache

theorem findFrom_append (key : String) (i : Nat) (a b : List (String × CompiledStyle)) :
    findFrom key i (a ++ b) = (findFrom key i a).or (findFrom key (i + a.length) b) := by
  induction a generalizing i with
  | nil => rfl
  | cons entry a ih =>
    rw [List.cons_append, findFrom, findFrom]
    split
    · rfl
    · rw [ih, List.length_cons, Nat.add_assoc, Nat.add_comm 1]

theorem mem_of_findFrom {i : Nat} {found : Nat × CompiledStyle}
    (h : findFrom key i entries = some found) : (key, found.2) ∈ entries := by
  induction entries generalizing i with
  | nil => cases h
  | cons entry entries ih =>
    rw [findFrom] at h
    split at h
    · next hkey =>
      cases h
      rw [← hkey]
      exact List.mem_cons_self
    · exact List.mem_cons_of_mem _ (ih h)

theorem notMem_of_findFrom {i : Nat} (h : findFrom key i entries = none) :
    key ∉ entries.map (·.1) := by
  induction entries generalizing i with
  | nil => exact List.not_mem_nil
  | cons entry entries ih =>
    rw [findFrom] at h
    split at h
    · cases h
    · next hkey =>
      rw [List.map_cons, List.mem_cons, not_or]
      exact ⟨Ne.symm hkey, ih h⟩

theorem find?_of_isPrefix {a b : Cache} (h : a.entries <+: b.entries)
    {found : Nat × CompiledStyle} (ha : a.find? key = some found) : b.find? key = some found := by
  obtain ⟨added, hadded⟩ := h
  simp only [find?] at ha ⊢
  rw [← hadded, findFrom_append, ha]
  rfl

theorem find?_push {a : Cache} (h : a.find? key = none) (style : CompiledStyle) :
    (a.push key style).find? key = some (a.size, style) := by
  simp only [find?] at h
  simp only [find?, push, size, findFrom_append, h, findFrom, Nat.zero_add, if_true, Option.none_or]

end Cache

/-- The calls that succeed, each after the earlier ones. -/
def succeeded (c : Compiler) (earlier : List Call) : List Call → List Call
  | [] => []
  | call :: later =>
    match c earlier call with
    | .ok _ => call :: succeeded c (earlier ++ [call]) later
    | .error _ => succeeded c (earlier ++ [call]) later

theorem succeeded_append (c : Compiler) (earlier a b : List Call) :
    succeeded c earlier (a ++ b) = succeeded c earlier a ++ succeeded c (earlier ++ a) b := by
  induction a generalizing earlier with
  | nil => simp only [List.nil_append, List.append_nil, succeeded]
  | cons call a ih =>
    simp only [List.cons_append, succeeded, ih, List.append_assoc, List.nil_append]
    split
    · rfl
    · rfl

/-- Each call is made under a key that is not in the cache yet, and adds its style if it succeeds. -/
inductive History (c : Compiler) : List Call → List (String × CompiledStyle) → Prop
  | new : History c [] []
  | failed {calls entries call error} (h : History c calls entries)
    (hnew : call.key ∉ entries.map (·.1)) (hcall : c calls call = .error error) :
    History c (calls ++ [call]) entries
  | compiled {calls entries call out style} (h : History c calls entries)
    (hnew : call.key ∉ entries.map (·.1)) (hcall : c calls call = .ok out)
    (hhash : style.hash = call.key) :
    History c (calls ++ [call]) (entries ++ [(call.key, style)])

theorem split_snoc {before after : List Call} {last call : Call}
    (h : calls ++ [last] = before ++ call :: after) :
    (calls = before ∧ last = call ∧ after = []) ∨
      ∃ between, calls = before ++ call :: between ∧ after = between ++ [last] := by
  rcases List.eq_nil_or_concat after with rfl | ⟨between, final, rfl⟩
  · obtain ⟨hcalls, hlast⟩ := List.append_inj' h rfl
    exact .inl ⟨hcalls, List.head_eq_of_cons_eq hlast, rfl⟩
  · rw [List.concat_eq_append, ← List.cons_append, ← List.append_assoc] at h
    obtain ⟨hcalls, hlast⟩ := List.append_inj' h rfl
    refine .inr ⟨between, hcalls, ?_⟩
    rw [List.concat_eq_append, List.head_eq_of_cons_eq hlast]

namespace History

theorem hash_eq (h : History c calls entries) : ∀ entry ∈ entries, entry.2.hash = entry.1 := by
  induction h with
  | new => exact fun entry hentry => nomatch hentry
  | failed _ _ _ ih => exact ih
  | compiled _ _ _ hhash ih => exact List.forall_mem_append.2 ⟨ih, List.forall_mem_singleton.2 hhash⟩

theorem keys_nodup (h : History c calls entries) : (entries.map (·.1)).Nodup := by
  induction h with
  | new => exact List.nodup_nil
  | failed _ _ _ ih => exact ih
  | compiled _ hnew _ _ ih =>
    rw [List.map_append, List.nodup_append]
    refine ⟨ih, List.nodup_singleton _, ?_⟩
    intro key hkey last hlast heq
    rw [List.map_singleton, List.mem_singleton] at hlast
    rw [heq, hlast] at hkey
    exact hnew hkey

theorem keys_eq (h : History c calls entries) :
    entries.map (·.1) = (succeeded c [] calls).map Call.key := by
  induction h with
  | new => rfl
  | failed _ _ hcall ih =>
    rw [succeeded_append, List.nil_append, succeeded, hcall, ih]
    simp only [succeeded, List.append_nil]
  | compiled _ _ hcall _ ih =>
    rw [succeeded_append, List.nil_append, succeeded, hcall, List.map_append, List.map_append, ih]
    simp only [succeeded, List.map_cons, List.map_nil]

theorem key_ne (h : History c calls entries) {before after : List Call} {call : Call}
    {out : CompiledCss} (hsplit : calls = before ++ call :: after) (hcall : c before call = .ok out) :
    call.key ∈ entries.map (·.1) ∧ ∀ later ∈ after, later.key ≠ call.key := by
  induction h generalizing after with
  | new => cases List.append_ne_nil_of_right_ne_nil before (List.cons_ne_nil call after) hsplit.symm
  | @failed _ _ last _ _ hnew hlast ih =>
    rcases split_snoc hsplit with ⟨rfl, rfl, rfl⟩ | ⟨between, hcalls, rfl⟩
    · rw [hcall] at hlast
      cases hlast
    · obtain ⟨hmem, hbetween⟩ := ih hcalls
      have hlater : last.key ≠ call.key := fun heq => hnew (heq ▸ hmem)
      exact ⟨hmem, List.forall_mem_append.2 ⟨hbetween, List.forall_mem_singleton.2 hlater⟩⟩
  | @compiled _ _ last _ _ _ hnew _ _ ih =>
    rw [List.map_append]
    rcases split_snoc hsplit with ⟨rfl, rfl, rfl⟩ | ⟨between, hcalls, rfl⟩
    · exact ⟨List.mem_append_right _ (List.mem_singleton_self _), fun later hlater => nomatch hlater⟩
    · obtain ⟨hmem, hbetween⟩ := ih hcalls
      have hlater : last.key ≠ call.key := fun heq => hnew (heq ▸ hmem)
      exact ⟨List.mem_append_left _ hmem,
        List.forall_mem_append.2 ⟨hbetween, List.forall_mem_singleton.2 hlater⟩⟩

end History

/-- What a request may do to an engine: go on with its history and add entries behind the others. -/
structure Advanced (c : Compiler) (e e' : Engine) : Prop where
  history : History c e.calls e.cache.entries → History c e'.calls e'.cache.entries
  entries : e.cache.entries <+: e'.cache.entries

theorem Advanced.refl (c : Compiler) (e : Engine) : Advanced c e e :=
  ⟨id, List.prefix_rfl⟩

theorem Advanced.trans (h : Advanced c e e') (h' : Advanced c e' e'') : Advanced c e e'' :=
  ⟨fun he => h'.history (h.history he), h.entries.trans h'.entries⟩

def Engine.Holds (e : Engine) (t : Token) : Prop :=
  e.cache.find? t.hash = some (t.entry, t.style)

theorem Advanced.holds (h : Advanced c e e') {t : Token} (ht : e.Holds t) : e'.Holds t :=
  Cache.find?_of_isPrefix h.entries ht

theorem compile_cases (c : Compiler) (e : Engine) (key source : String) :
    (compile c e key source).2.calls = e.calls ++ [callOf key source] ∧
      (compile c e key source).2.cache = e.cache ∧
      ((∃ error, c e.calls (callOf key source) = .error error ∧
          (compile c e key source).1 = .error error) ∨
        ∃ out style, c e.calls (callOf key source) = .ok out ∧
          (compile c e key source).1 = .ok style ∧ style.hash = key) := by
  simp only [compile]
  cases hcall : c e.calls (callOf key source) with
  | error error => exact ⟨rfl, rfl, .inl ⟨error, rfl, rfl⟩⟩
  | ok out =>
    dsimp only
    split
    · exact ⟨rfl, rfl, .inr ⟨out, _, rfl, rfl, rfl⟩⟩
    · exact ⟨rfl, rfl, .inr ⟨out, _, rfl, rfl, rfl⟩⟩

theorem compile_advanced (hnew : e.cache.find? key = none) (source : String) :
    match compile c e key source with
    | (.error _, e') => Advanced c e e'
    | (.ok style, e') => Advanced c e { e' with cache := e'.cache.push key style } ∧
        style.hash = key ∧ e'.cache.find? key = none := by
  obtain ⟨hcalls, hcache, hresult⟩ := compile_cases c e key source
  have hkey := callOf_key key source
  have habsent : (callOf key source).key ∉ e.cache.entries.map (·.1) := by
    rw [hkey]
    exact Cache.notMem_of_findFrom hnew
  cases hcompile : compile c e key source with
  | mk result e' =>
    rw [hcompile] at hcalls hcache hresult
    dsimp only at hcalls hcache hresult
    rcases hresult with ⟨error, hcall, rfl⟩ | ⟨out, style, hcall, rfl, hhash⟩
    · dsimp only
      apply Advanced.mk
      · intro h
        rw [hcalls, hcache]
        exact h.failed habsent hcall
      · simp only [hcache, List.prefix_refl]
    · refine ⟨.mk ?_ ?_, hhash, hcache ▸ hnew⟩
      · intro h
        have hcompiled := h.compiled habsent hcall (hhash.trans hkey.symm)
        rw [hkey] at hcompiled
        simp only [hcalls, hcache]
        exact hcompiled
      · simp only [hcache]
        exact List.prefix_append _ _

theorem obtain_advanced (c : Compiler) (e : Engine) (key source : String) (vars : Variables) :
    Advanced c e (obtain c e key source vars).2 ∧
      (History c e.calls e.cache.entries → ∀ t, (obtain c e key source vars).1 = .ok t →
        (obtain c e key source vars).2.Holds t) := by
  rw [obtain]
  cases hfind : e.cache.find? key with
  | some found =>
    refine ⟨.refl c e, ?_⟩
    intro h t ht
    cases ht
    have hhash := h.hash_eq _ (Cache.mem_of_findFrom hfind)
    exact (congrArg e.cache.find? hhash).trans hfind
  | none =>
    have hadvanced := compile_advanced (c := c) hfind source
    dsimp only
    cases hcompile : compile c e key source with
    | mk result e' =>
      rw [hcompile] at hadvanced
      cases result with
      | error error => exact ⟨hadvanced, fun _ t ht => nomatch ht⟩
      | ok style =>
        obtain ⟨hpushed, hhash, hnew⟩ := hadvanced
        refine ⟨hpushed, ?_⟩
        intro _ t ht
        cases ht
        exact (congrArg _ hhash).trans (Cache.find?_push hnew style)

theorem gather_advanced (c : Compiler) (hash : String) (e : Engine) (position : Nat) (parts : Parts)
    (interpolations : List Interpolation) :
    Advanced c e (gather c hash e position parts interpolations).2 := by
  induction interpolations generalizing e position parts with
  | nil => exact .refl c e
  | cons i rest ih =>
    cases i with
    | empty => exact ih e _ _
    | value text => exact ih e _ _
    | mixin token => exact ih e _ _
    | declarations d =>
      have hdeclare := (obtain_advanced c e (shortHash (shortHash d.toCss)) d.toCss ∅).1
      rw [gather]
      cases hresult : declare c e d with
      | mk result e' =>
        change Advanced c e (declare c e d).2 at hdeclare
        rw [hresult] at hdeclare
        cases result with
        | error error => exact hdeclare
        | ok token => exact hdeclare.trans (ih e' _ _)

theorem css_advanced (c : Compiler) (e : Engine) (fragments : List String)
    (interpolations : List Interpolation) :
    Advanced c e (css c e fragments interpolations).2 ∧
      (History c e.calls e.cache.entries → ∀ t, (css c e fragments interpolations).1 = .ok t →
        (css c e fragments interpolations).2.Holds t) := by
  simp only [css]
  split
  · exact ⟨.refl c e, fun _ t ht => nomatch ht⟩
  · have hgather := gather_advanced c (templateHash fragments) e 1 .empty interpolations
    cases hresult : gather c (templateHash fragments) e 1 .empty interpolations with
    | mk result e' =>
      rw [hresult] at hgather
      cases result with
      | error error => exact ⟨hgather, fun _ t ht => nomatch ht⟩
      | ok parts =>
        obtain ⟨hobtain, hholds⟩ := obtain_advanced c e'
          (shortHash (templateHash fragments ++ parts.mixins)) (assemble fragments parts.slots)
          parts.vars
        exact ⟨hgather.trans hobtain, fun h => hholds (hgather.history h)⟩

/-- A mapping is compiled as a template of one fragment. -/
theorem declare_eq_css (c : Compiler) (e : Engine) (d : Declarations) :
    declare c e d = css c e [d.toCss] [] := by
  have hjoin : String.join [d.toCss] = d.toCss := String.empty_append
  simp only [declare, css, gather, Parts.empty, assemble, templateHash, hjoin, String.append_empty]
  rfl

theorem Request.run_advanced (c : Compiler) (e : Engine) (r : Request) :
    Advanced c e (r.run c e).2 ∧
      (History c e.calls e.cache.entries → ∀ t, (r.run c e).1 = .ok t → (r.run c e).2.Holds t) := by
  cases r with
  | css fragments interpolations => exact css_advanced c e fragments interpolations
  | declarations d =>
    simp only [run, declare_eq_css]
    exact css_advanced c e [d.toCss] []

theorem Engine.after_append (c : Compiler) (earlier later : List Request) :
    Engine.after c (earlier ++ later) =
      later.foldl (fun e r => (r.run c e).2) (Engine.after c earlier) :=
  List.foldl_append

theorem Engine.after_advanced (c : Compiler) (earlier later : List Request) :
    Advanced c (Engine.after c earlier) (Engine.after c (earlier ++ later)) := by
  rw [after_append]
  induction later generalizing earlier with
  | nil => exact .refl c _
  | cons r later ih =>
    have hrest := ih (earlier ++ [r])
    rw [after_append] at hrest
    exact (r.run_advanced c (Engine.after c earlier)).1.trans hrest

theorem Engine.after_history (c : Compiler) (requests : List Request) :
    History c (Engine.after c requests).calls (Engine.after c requests).cache.entries :=
  (Engine.after_advanced c [] requests).history .new

def Returned (c : Compiler) (requests : List Request) (t : Token) : Prop :=
  ∃ earlier r later, requests = earlier ++ r :: later ∧
    (r.run c (Engine.after c earlier)).1 = .ok t

theorem Returned.holds {requests : List Request} {t : Token} (h : Returned c requests t) :
    (Engine.after c requests).Holds t := by
  obtain ⟨earlier, r, later, rfl, hrun⟩ := h
  have hsplit : earlier ++ r :: later = (earlier ++ [r]) ++ later := by simp
  have hhere := (r.run_advanced c (Engine.after c earlier)).2 (Engine.after_history c earlier) t hrun
  have hnext : Engine.after c (earlier ++ [r]) = (r.run c (Engine.after c earlier)).2 :=
    Engine.after_append c earlier [r]
  rw [hsplit]
  apply (Engine.after_advanced c (earlier ++ [r]) later).holds
  rw [hnext]
  exact hhere

/-- After any requests to any compiler: an entry has its key as hash and no key stands twice; an entry
stays as it is and where it is; no call has the key of a call that succeeded before it, and each call
that succeeded has one entry; and every token that was returned has the style that the cache holds
under its hash, so tokens of one hash share one style. -/
theorem cache_identity (c : Compiler) (requests : List Request) :
    (∀ entry ∈ (Engine.after c requests).cache.entries, entry.2.hash = entry.1) ∧
      (Engine.after c requests).cache.keys.Nodup ∧
      (∀ earlier later, requests = earlier ++ later → ∀ key found,
        (Engine.after c earlier).cache.find? key = some found →
          (Engine.after c requests).cache.find? key = some found) ∧
      (∀ before call after out, (Engine.after c requests).calls = before ++ call :: after →
        c before call = .ok out → ∀ later ∈ after, later.key ≠ call.key) ∧
      (Engine.after c requests).cache.size =
        (succeeded c [] (Engine.after c requests).calls).length ∧
      (∀ t, Returned c requests t →
        (Engine.after c requests).cache.find? t.hash = some (t.entry, t.style)) ∧
      ∀ t u, Returned c requests t → Returned c requests u → t.hash = u.hash →
        t.shares u = true ∧ t.style = u.style := by
  have hhistory := Engine.after_history c requests
  refine ⟨hhistory.hash_eq, hhistory.keys_nodup, ?_, ?_, ?_, fun t ht => ht.holds, ?_⟩
  · rintro earlier later rfl key found hfound
    -- entries are only added behind the others, so each stays at its place
    exact Cache.find?_of_isPrefix (Engine.after_advanced c earlier later).entries hfound
  · intro before call after out hsplit hcall
    exact (hhistory.key_ne hsplit hcall).2
  · have hkeys := congrArg List.length hhistory.keys_eq
    rwa [List.length_map, List.length_map] at hkeys
  · intro t u ht hu hhash
    have hfound : (Engine.after c requests).cache.find? t.hash = some (u.entry, u.style) :=
      (congrArg _ hhash).trans hu.holds
    have hsame := Option.some.inj (ht.holds.symm.trans hfound)
    exact ⟨beq_iff_eq.2 (congrArg Prod.fst hsame), congrArg Prod.snd hsame⟩

end ScopedStyles.Style
