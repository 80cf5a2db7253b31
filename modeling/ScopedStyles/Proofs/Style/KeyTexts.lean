import ScopedStyles.Proofs.Style.Inlining

namespace ScopedStyles.Style

variable {c : Compiler} {e : Engine}

def joinHashes (hashes : List String) : String :=
  String.join (hashes.map ("_" ++ ·))

theorem append_joinHashes_cons (hash next : String) (hashes : List String) :
    hash ++ joinHashes (next :: hashes) = hash ++ "_" ++ (next ++ joinHashes hashes) := by
  simp only [joinHashes, List.map_cons, String.join_cons, String.append_assoc]

theorem toList_append_joinHashes (hash : String) (hashes : List String) :
    (hash ++ joinHashes hashes).toList = ['_'].intercalate ((hash :: hashes).map String.toList) := by
  induction hashes generalizing hash with
  | nil => simp [joinHashes]
  | cons next hashes ih =>
    rw [append_joinHashes_cons, String.toList_append, ih, String.toList_append, List.map_cons,
      List.map_cons, List.map_cons, List.intercalate_cons_cons]
    rfl

theorem splitOn_append_joinHashes {hash : String} {hashes : List String}
    (h : ∀ x ∈ hash :: hashes, '_' ∉ x.toList) :
    (hash ++ joinHashes hashes).toList.splitOn '_' = (hash :: hashes).map String.toList := by
  rw [toList_append_joinHashes]
  apply List.splitOn_intercalate
  · exact List.forall_mem_map.2 h
  · exact List.cons_ne_nil _ _

/-- Hashes without underscores can be read off the text. -/
theorem append_joinHashes_eq_iff {hash hash' : String} {hashes hashes' : List String}
    (h : ∀ x ∈ hash :: hashes, '_' ∉ x.toList) (h' : ∀ x ∈ hash' :: hashes', '_' ∉ x.toList) :
    hash ++ joinHashes hashes = hash' ++ joinHashes hashes' ↔ hash = hash' ∧ hashes = hashes' := by
  constructor
  · intro heq
    -- splitting at the underscores gives the hashes back
    have hsplit := congrArg (fun text : String => text.toList.splitOn '_') heq
    rw [splitOn_append_joinHashes h, splitOn_append_joinHashes h'] at hsplit
    have hinjective : Function.Injective String.toList := fun _ _ => String.toList_inj.1
    exact List.cons.inj (List.map_injective_iff.2 hinjective hsplit)
  · rintro ⟨rfl, rfl⟩
    rfl

theorem obtain_hash (h : History c e.calls e.cache.entries) {key source : String} {vars : Variables}
    {t : Token} (ht : (obtain c e key source vars).1 = .ok t) : t.hash = key := by
  have hlookup := obtain_lookup c e key source vars
  cases hresult : obtain c e key source vars with
  | mk result e' =>
    rw [hresult] at hlookup ht
    cases hlookup with
    | hit hfind =>
      cases ht
      exact h.hash_eq _ (Cache.mem_of_findFrom hfind)
    | failed _ _ => cases ht
    | compiled _ _ =>
      cases ht
      exact callOf_key key source

theorem Returned.hash_eq {requests : List Request} {t : Token} (h : Returned c requests t) :
    ∃ text, t.hash = shortHash text := by
  obtain ⟨earlier, r, later, -, hrun⟩ := h
  have hhistory := Engine.after_history c earlier
  cases r with
  | declarations d => exact ⟨_, obtain_hash hhistory hrun⟩
  | css fragments interpolations =>
    simp only [Request.run, css] at hrun
    split at hrun
    · cases hrun
    · have hgather := (gather_advanced c (templateHash fragments) (Engine.after c earlier) 1 .empty
        interpolations).history hhistory
      cases hresult : gather c (templateHash fragments) (Engine.after c earlier) 1 .empty
          interpolations with
      | mk result e' =>
        rw [hresult] at hrun hgather
        cases result with
        | error error => cases hrun
        | ok parts => exact ⟨_, obtain_hash hgather hrun⟩

theorem declareAll_hash {ds : List Declarations} {ts : List Token} {e' : Engine}
    (h : History c e.calls e.cache.entries) (hall : declareAll c e ds = (.ok ts, e')) :
    ts.map Token.hash = ds.map Declarations.key := by
  induction ds generalizing e ts with
  | nil =>
    cases hall
    rfl
  | cons d ds ih =>
    obtain ⟨t, e₁, rest, hfirst, hrest, rfl⟩ := declareAll_cons_ok hall
    have hadvanced := (obtain_advanced c e d.key d.toCss ∅).1
    change Advanced c e (declare c e d).2 at hadvanced
    rw [hfirst] at hadvanced
    have ht : t.hash = d.key := obtain_hash h (congrArg Prod.fst hfirst)
    rw [List.map_cons, List.map_cons, ht, ih (hadvanced.history h) hrest]

def Interpolation.token? : Interpolation → Option Token
  | .mixin token => some token
  | _ => none

def tokensOf (is : List Interpolation) (ts : List Token) : List Token :=
  (inlineAll is ts).filterMap Interpolation.token?

theorem addMixin_joinHashes (parts : Parts) (t : Token) (hashes : List String) :
    (parts.addMixin t).mixins ++ joinHashes hashes = parts.mixins ++ joinHashes (t.hash :: hashes) := by
  simp only [Parts.addMixin, joinHashes, List.map_cons, String.join_cons, String.append_assoc]

theorem addAll_mixins (hash : String) (position : Nat) (parts : Parts) {is : List Interpolation}
    {ts : List Token} (h : ts.length = (mappingsOf is).length) :
    (addAll hash position parts is ts).mixins =
      parts.mixins ++ joinHashes ((tokensOf is ts).map Token.hash) := by
  induction is generalizing position parts ts with
  | nil => exact String.append_empty.symm
  | cons i is ih =>
    cases i with
    | empty => exact ih _ _ h
    | value text => exact ih _ _ h
    | mixin t => exact (ih _ _ h).trans (addMixin_joinHashes parts t _)
    | declarations d =>
      cases ts with
      | nil => cases h
      | cons t ts => exact (ih _ _ (Nat.succ.inj h)).trans (addMixin_joinHashes parts t _)

theorem mem_tokensOf {is : List Interpolation} {ts : List Token} {t : Token}
    (h : t ∈ tokensOf is ts) : .mixin t ∈ is ∨ t ∈ ts := by
  induction is generalizing ts with
  | nil => cases h
  | cons i is ih =>
    cases i with
    | empty => exact (ih h).imp_left (List.mem_cons_of_mem _)
    | value text => exact (ih h).imp_left (List.mem_cons_of_mem _)
    | mixin u =>
      rcases List.mem_cons.1 h with rfl | hrest
      · exact .inl List.mem_cons_self
      · exact (ih hrest).imp_left (List.mem_cons_of_mem _)
    | declarations d =>
      cases ts with
      | nil => exact (ih h).imp_left (List.mem_cons_of_mem _)
      | cons u ts =>
        rcases List.mem_cons.1 h with rfl | hrest
        · exact .inr List.mem_cons_self
        · exact (ih hrest).imp (List.mem_cons_of_mem _) (List.mem_cons_of_mem _)

/-- A call of a template on an engine that earlier requests have led to. -/
structure TemplateCall where
  compiler : Compiler
  earlier : List Request
  fragments : List String
  interpolations : List Interpolation
  circulating : ∀ t, .mixin t ∈ interpolations → ∃ c requests, Returned c requests t

namespace TemplateCall

variable (k : TemplateCall)

def engine : Engine :=
  Engine.after k.compiler k.earlier

def run : Except Error Token × Engine :=
  css k.compiler k.engine k.fragments k.interpolations

/-- The styles that the call inlines, in order, unless a mapping does not compile. -/
def inlined : Except Error (List Token) :=
  (declareAll k.compiler k.engine (mappingsOf k.interpolations)).1.map (tokensOf k.interpolations)

/-- The text whose hash is the cache key, unless the call fails before it has one. -/
def keyText : Except Error String :=
  if k.fragments.length ≠ k.interpolations.length + 1 then
    .error (.templateArity k.fragments.length k.interpolations.length)
  else
    (gather k.compiler (templateHash k.fragments) k.engine 1 .empty k.interpolations).1.map
      fun parts => templateHash k.fragments ++ parts.mixins

theorem run_eq :
    match k.keyText with
    | .error error => k.run.1 = .error error
    | .ok text => ∃ e source vars, k.run = obtain k.compiler e (shortHash text) source vars := by
  unfold keyText run css
  by_cases harity : k.fragments.length ≠ k.interpolations.length + 1
  · rw [if_pos harity, if_pos harity]
  · rw [if_neg harity, if_neg harity]
    dsimp only
    cases gather k.compiler (templateHash k.fragments) k.engine 1 .empty k.interpolations with
    | mk result e =>
      cases result with
      | error error => rfl
      | ok parts => exact ⟨e, assemble k.fragments parts.slots, parts.vars, rfl⟩

variable {k}

theorem keyText_eq {text : String} (h : k.keyText = .ok text) :
    ∃ ts, k.inlined = .ok ts ∧
      text = templateHash k.fragments ++ joinHashes (ts.map Token.hash) ∧
      ∀ hash ∈ templateHash k.fragments :: ts.map Token.hash, ∃ source, hash = shortHash source := by
  simp only [keyText, gather_eq_addAll] at h
  split at h
  · cases h
  · have hhistory : History k.compiler k.engine.calls k.engine.cache.entries :=
      Engine.after_history k.compiler k.earlier
    unfold inlined
    cases hall : declareAll k.compiler k.engine (mappingsOf k.interpolations) with
    | mk results e =>
      rw [hall] at h
      cases results with
      | error error => cases h
      | ok ts =>
        refine ⟨tokensOf k.interpolations ts, rfl, ?_, ?_⟩
        · cases h
          have hmixins := addAll_mixins (templateHash k.fragments) 1 .empty (declareAll_length hall)
          exact congrArg _ (hmixins.trans String.empty_append)
        · rw [List.forall_mem_cons, List.forall_mem_map]
          refine ⟨⟨_, rfl⟩, ?_⟩
          intro t ht
          rcases mem_tokensOf ht with hmixin | hdeclared
          · obtain ⟨c, requests, hreturned⟩ := k.circulating t hmixin
            exact hreturned.hash_eq
          · have hkeys := List.mem_map_of_mem (f := Token.hash) hdeclared
            rw [declareAll_hash hhistory hall] at hkeys
            obtain ⟨d, -, hkey⟩ := List.mem_map.1 hkeys
            exact ⟨_, hkey.symm⟩

end TemplateCall

/-- No two numbers have one numeral in base 36; no numeral is empty, its digits are `0` to `9` and `a`
to `z`, and the one of zero alone begins with `0`. What a call looks up is the hash of its key text, and two
calls, on engines that any requests have led to, have one key text exactly if their templates have one
hash and the styles that they inline have the same hashes in the same order. -/
theorem keyText_eq_iff :
    (Function.Injective Base36.encode ∧
      ∀ n, (Base36.encode n).toList ≠ [] ∧ (∀ c ∈ (Base36.encode n).toList, Base36.IsDigit c) ∧
        ((Base36.encode n).toList.head? = some '0' ↔ n = 0)) ∧
      (∀ k : TemplateCall,
        match k.keyText with
        | .error error => k.run.1 = .error error
        | .ok text => ∃ e source vars, k.run = obtain k.compiler e (shortHash text) source vars) ∧
      ∀ (k l : TemplateCall) (s t : String), k.keyText = .ok s → l.keyText = .ok t →
        ∃ ts us, k.inlined = .ok ts ∧ l.inlined = .ok us ∧
          s = templateHash k.fragments ++ joinHashes (ts.map Token.hash) ∧
          t = templateHash l.fragments ++ joinHashes (us.map Token.hash) ∧
          (s = t ↔ templateHash k.fragments = templateHash l.fragments ∧
            ts.map Token.hash = us.map Token.hash) := by
  refine ⟨⟨Base36.encode_injective, ?_⟩, TemplateCall.run_eq, ?_⟩
  · intro n
    rw [Base36.encode, String.toList_ofList]
    exact ⟨Base36.digits_ne_nil n, fun c => Base36.isDigit_of_mem_digits, Base36.head?_digits n⟩
  · intro k l s t hs ht
    obtain ⟨ts, hts, rfl, hnumerals⟩ := TemplateCall.keyText_eq hs
    obtain ⟨us, hus, rfl, hnumerals'⟩ := TemplateCall.keyText_eq ht
    have hunderscore : ∀ {hashes : List String},
        (∀ hash ∈ hashes, ∃ source, hash = shortHash source) → ∀ hash ∈ hashes, '_' ∉ hash.toList := by
      intro hashes h hash hmem
      obtain ⟨source, rfl⟩ := h hash hmem
      exact shortHash_no_underscore source
    exact ⟨ts, us, hts, hus, rfl, rfl,
      append_joinHashes_eq_iff (hunderscore hnumerals) (hunderscore hnumerals')⟩

def declaredMargin : TemplateCall where
  compiler := .echo
  earlier := []
  fragments := ["a \x7b", ";\x7d"]
  interpolations := [.declarations [("margin", "0")]]
  circulating := nofun

def inlinedMargin : TemplateCall where
  compiler := .counting
  earlier := [.css ["b \x7b\x7d"] []]
  fragments := ["a \x7b", ";\x7d"]
  interpolations := [.mixin ⟨0, ⟨"5t5vk5", "& \x7bmargin:0;\x7d", ∅⟩, ∅⟩]
  circulating := by
    intro t ht
    cases List.mem_singleton.1 ht
    exact ⟨.echo, [.declarations [("margin", "0")]], [], .declarations [("margin", "0")], [], rfl,
      by decide +kernel⟩

theorem keyText_eq_iff_margin :
    declaredMargin.keyText = .ok "383vqx_5t5vk5" ∧ inlinedMargin.keyText = .ok "383vqx_5t5vk5" ∧
      ∃ ts us, declaredMargin.inlined = .ok ts ∧ inlinedMargin.inlined = .ok us ∧
        ts.map Token.hash = us.map Token.hash := by
  have hdeclared : declaredMargin.keyText = .ok "383vqx_5t5vk5" := by decide +kernel
  have hinlined : inlinedMargin.keyText = .ok "383vqx_5t5vk5" := by decide +kernel
  obtain ⟨ts, us, hts, hus, -, -, hiff⟩ := keyText_eq_iff.2.2 _ _ _ _ hdeclared hinlined
  exact ⟨hdeclared, hinlined, ts, us, hts, hus, (hiff.1 rfl).2⟩

end ScopedStyles.Style
