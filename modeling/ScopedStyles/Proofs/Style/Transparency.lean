import Mathlib.Data.Set.Function
import ScopedStyles.Proofs.Style.CompiledOnce
import ScopedStyles.Proofs.Text.Base36

namespace ScopedStyles.Style

def Declarations.key (d : Declarations) : String :=
  shortHash (shortHash d.toCss)

inductive Request where
  | css (fragments : List String) (interpolations : List Interpolation)
  | declarations (d : Declarations)

namespace Request

def run (c : Compiler) (e : Engine) : Request → Except Error Token × Engine
  | css fragments interpolations => Style.css c e fragments interpolations
  | declarations d => declare c e d

end Request

/-- The engine after requests that began with a new one, failed ones included. -/
def Engine.after (c : Compiler) (requests : List Request) : Engine :=
  requests.foldl (fun e r => (r.run c e).2) .new

variable {g : Call → Except Error CompiledCss} {e : Engine}

def Declarations.style (g : Call → Except Error CompiledCss) (d : Declarations) :
    Except Error CompiledStyle :=
  styleOf g (callOf d.key d.toCss)

def collect (g : Call → Except Error CompiledCss) (hash : String) :
    Nat → Parts → List Interpolation → Except Error Parts
  | _, parts, [] => .ok parts
  | position, parts, .empty :: rest => collect g hash (position + 1) (parts.addCss "") rest
  | position, parts, .value text :: rest =>
    collect g hash (position + 1) (parts.addValue (variableName hash position) text) rest
  | position, parts, .mixin token :: rest =>
    collect g hash (position + 1) (parts.addMixin token) rest
  | position, parts, .declarations d :: rest =>
    match d.style g with
    | .ok style => collect g hash (position + 1) (parts.addMixin ⟨0, style, ∅⟩) rest
    | .error error => .error error

/-- The mappings that are looked up: all up to the first one that does not compile. -/
def inlined (g : Call → Except Error CompiledCss) : List Interpolation → List Declarations
  | [] => []
  | .declarations d :: rest =>
    match d.style g with
    | .ok _ => d :: inlined g rest
    | .error _ => [d]
  | _ :: rest => inlined g rest

namespace Request

def mappings (g : Call → Except Error CompiledCss) : Request → List Declarations
  | css fragments interpolations =>
    if fragments.length ≠ interpolations.length + 1 then [] else inlined g interpolations
  | declarations _ => []

/-- Key, source and variables of a request, unless it fails before it looks up its own style. -/
def own (g : Call → Except Error CompiledCss) : Request → Except Error (String × String × Variables)
  | css fragments interpolations =>
    if fragments.length ≠ interpolations.length + 1 then
      .error (.templateArity fragments.length interpolations.length)
    else
      (collect g (templateHash fragments) 1 .empty interpolations).map fun parts =>
        (shortHash (templateHash fragments ++ parts.mixins), assemble fragments parts.slots, parts.vars)
  | declarations d => .ok (d.key, d.toCss, ∅)

/-- The texts that are hashed to answer the request. -/
def hashed (g : Call → Except Error CompiledCss) : Request → List String
  | css fragments interpolations =>
    if fragments.length ≠ interpolations.length + 1 then []
    else
      String.join fragments ::
        ((inlined g interpolations).flatMap fun d =>
          [d.toCss, shortHash d.toCss]) ++
        match collect g (templateHash fragments) 1 .empty interpolations with
        | .ok parts => [templateHash fragments ++ parts.mixins]
        | .error _ => []
  | declarations d => [d.toCss, shortHash d.toCss]

/-- The request is answered as by a new engine. -/
def Transparent (g : Call → Except Error CompiledCss) (e : Engine) (r : Request) : Prop :=
  seen (r.run (.ofFunction g) e).1 = seen (r.run (.ofFunction g) .new).1

end Request

/-- What has been compiled under the key is the style of this source. -/
def Engine.Keeps (g : Call → Except Error CompiledCss) (e : Engine) (key source : String) : Prop :=
  ∀ call ∈ e.calls, call.key = key → ∀ style, styleOf g call = .ok style →
    styleOf g (callOf key source) = .ok style

theorem keeps_iff (h : CompiledOnce g e) {key source : String} :
    e.Keeps g key source ↔ e.style g key source = styleOf g (callOf key source) := by
  constructor
  · intro hkeeps
    cases hget : e.cache.get? key with
    | none => exact Engine.style_of_none hget
    | some style =>
      obtain ⟨call, hmem, hkey, hstyle⟩ := (h key style).1 hget
      exact (Engine.style_of_some hget).trans (hkeeps call hmem hkey style hstyle).symm
  · intro hstyle call hmem hkey style hcall
    have hget := (h key style).2 ⟨call, hmem, hkey, hcall⟩
    exact hstyle.symm.trans (Engine.style_of_some hget)

theorem digits_no_underscore (n : Nat) : '_' ∉ Base36.digits n :=
  fun h => absurd (Base36.isDigit_of_mem_digits h) (by decide)

theorem shortHash_no_underscore (s : String) : '_' ∉ (shortHash s).toList := by
  unfold shortHash Base36.encode
  rw [String.toList_ofList]
  exact digits_no_underscore _

def Mixins (m : String) : Prop :=
  ∀ c ∈ m.toList.head?, c = '_'

theorem append_mixins_inj {h h' m m' : String} (hh : '_' ∉ h.toList) (hh' : '_' ∉ h'.toList)
    (hm : Mixins m) (hm' : Mixins m') (heq : h ++ m = h' ++ m') : h = h' ∧ m = m' := by
  have hfront : ∀ {a b : String}, '_' ∉ a.toList → Mixins b →
      (a ++ b).toList.takeWhile (· ≠ '_') = a.toList := by
    intro a b ha hb
    rw [String.toList_append, List.takeWhile_append_of_pos]
    · cases hb' : b.toList with
      | nil => simp
      | cons c rest =>
        have hc : c = '_' := hb c (by rw [hb']; rfl)
        simp [hc]
    · intro c hc
      have : c ≠ '_' := by
        intro h
        exact ha (h ▸ hc)
      simpa using this
  have hhead : h.toList = h'.toList := by
    rw [← hfront hh hm, ← hfront hh' hm', heq]
  have heq' : h = h' := String.toList_inj.1 hhead
  subst heq'
  refine ⟨rfl, ?_⟩
  have happend : h.toList ++ m.toList = h.toList ++ m'.toList := by
    rw [← String.toList_append, ← String.toList_append, heq]
  exact String.toList_inj.1 (List.append_cancel_left happend)

/-- Two lookups meet exactly if their fragments make up the same text and the same styles are
inlined, as long as the hash keeps the texts apart. -/
theorem key_eq_iff {S : Set String} (hinj : S.InjOn shortHash) {t t' m m' : String}
    (ht : t ∈ S) (ht' : t' ∈ S) (hk : shortHash t ++ m ∈ S) (hk' : shortHash t' ++ m' ∈ S)
    (hm : Mixins m) (hm' : Mixins m') :
    shortHash (shortHash t ++ m) = shortHash (shortHash t' ++ m') ↔ t = t' ∧ m = m' := by
  constructor
  · intro h
    -- no hash has an underscore, so the first one of the key text ends the hash of the template
    obtain ⟨hhash, hmixins⟩ := append_mixins_inj (shortHash_no_underscore t)
      (shortHash_no_underscore t') hm hm' (hinj hk hk' h)
    exact ⟨hinj ht ht' hhash, hmixins⟩
  · rintro ⟨rfl, rfl⟩
    rfl

theorem mixins_underscore (h m : String) :
    Mixins ("_" ++ h ++ m) ∧ "_" ++ h ++ m ≠ "" := by
  have hlist : ("_" ++ h ++ m).toList = '_' :: (h.toList ++ m.toList) := by
    simp [String.toList_append]
  constructor
  · intro c hc
    rw [hlist] at hc
    exact (Option.some.inj hc).symm
  · intro hempty
    rw [hempty] at hlist
    cases hlist

theorem collect_mixins {hash : String} {position : Nat} {parts parts' : Parts}
    {interpolations : List Interpolation}
    (h : collect g hash position parts interpolations = .ok parts') :
    ∃ m, parts'.mixins = parts.mixins ++ m ∧ Mixins m ∧ (inlined g interpolations ≠ [] → m ≠ "") := by
  induction interpolations generalizing position parts with
  | nil =>
    cases h
    exact ⟨"", (String.append_empty).symm, nofun, fun hne => (hne rfl).elim⟩
  | cons i rest ih =>
    cases i with
    | empty =>
      have hrest : ∃ m, parts'.mixins = (parts.addCss "").mixins ++ m ∧ _ := ih h
      exact hrest
    | value text =>
      have hrest : ∃ m, parts'.mixins = (parts.addValue _ text).mixins ++ m ∧ _ := ih h
      exact hrest
    | mixin token =>
      change collect g hash (position + 1) (parts.addMixin token) rest = _ at h
      obtain ⟨m, hparts, -, -⟩ := ih h
      obtain ⟨hmixins, hne⟩ := mixins_underscore token.hash m
      refine ⟨"_" ++ token.hash ++ m, ?_, hmixins, fun _ => hne⟩
      rw [hparts]
      simp [Parts.addMixin, String.append_assoc]
    | declarations d =>
      unfold collect at h
      cases hstyle : d.style g with
      | error error =>
        rw [hstyle] at h
        cases h
      | ok style =>
        rw [hstyle] at h
        obtain ⟨m, hparts, -, -⟩ := ih h
        obtain ⟨hmixins, hne⟩ := mixins_underscore style.hash m
        refine ⟨"_" ++ style.hash ++ m, ?_, hmixins, fun _ => hne⟩
        rw [hparts]
        simp [Parts.addMixin, Token.hash, String.append_assoc]

theorem style_kept {e' : Engine} {d d' : Declarations} {style : CompiledStyle}
    (hown : d.style g = .ok style) (hfound : e'.cache.get? d.key = some style)
    (hothers : ∀ k, k ≠ d.key → e'.cache.get? k = e.cache.get? k)
    (hkey : d'.key = d.key → d'.toCss = d.toCss) (hstyle : e.style g d'.key d'.toCss = d'.style g) :
    e'.style g d'.key d'.toCss = d'.style g := by
  by_cases hsame : d'.key = d.key
  · have hown' : d'.style g = d.style g := by
      unfold Declarations.style
      rw [hsame, hkey hsame]
    rw [hown', hown, hsame]
    exact Engine.style_of_some hfound
  · rw [← hstyle]
    unfold Engine.style
    rw [hothers _ hsame]

/-- Where every mapping is looked up as by itself, the interpolations come to what they should, and
only entries of mappings are added to the cache. -/
theorem gather_eq (hash : String) (position : Nat) (parts : Parts)
    {interpolations : List Interpolation} (h : CompiledOnce g e)
    (hstyle : ∀ d ∈ inlined g interpolations,
      e.style g d.key d.toCss = d.style g)
    (hkeys : ∀ d ∈ inlined g interpolations, ∀ d' ∈ inlined g interpolations,
      d.key = d'.key → d.toCss = d'.toCss) :
    (gather (.ofFunction g) hash e position parts interpolations).1
        = collect g hash position parts interpolations ∧
      CompiledOnce g (gather (.ofFunction g) hash e position parts interpolations).2 ∧
      ∀ k, (∀ d ∈ inlined g interpolations, d.key ≠ k) →
        (gather (.ofFunction g) hash e position parts interpolations).2.cache.get? k
          = e.cache.get? k := by
  induction interpolations generalizing e position parts with
  | nil => exact ⟨rfl, h, fun _ _ => rfl⟩
  | cons i rest ih =>
    cases i with
    | empty => exact ih _ _ h hstyle hkeys
    | value text => exact ih _ _ h hstyle hkeys
    | mixin token => exact ih _ _ h hstyle hkeys
    | declarations d =>
      obtain ⟨hresult, hafter, hfound, hothers⟩ :=
        obtain_spec h d.key d.toCss ∅
      change seen (declare (.ofFunction g) e d).1 = _ at hresult
      change CompiledOnce g (declare (.ofFunction g) e d).2 at hafter
      have hd : e.style g d.key d.toCss = d.style g := by
        apply hstyle d
        unfold inlined
        split
        · exact List.mem_cons_self
        · exact List.mem_cons_self
      change ∀ k, k ≠ _ → (declare (.ofFunction g) e d).2.cache.get? k = _ at hothers
      change ∀ style, _ → (declare (.ofFunction g) e d).2.cache.get? _ = _ at hfound
      rw [hd] at hresult hfound
      unfold gather collect
      cases hown : d.style g with
      | error error =>
        have hinlined : inlined g (.declarations d :: rest) = [d] := by
          unfold inlined
          rw [hown]
        rw [hown] at hresult
        rw [hinlined]
        cases hdeclare : declare (.ofFunction g) e d with
        | mk result e' =>
          rw [hdeclare] at hresult hafter hothers
          cases result with
          | ok token => cases hresult
          | error error' =>
            cases hresult
            refine ⟨rfl, hafter, ?_⟩
            intro k hk
            exact hothers k (hk d List.mem_cons_self).symm
      | ok style =>
        have hinlined : inlined g (.declarations d :: rest) = d :: inlined g rest := by
          rw [inlined, hown]
        rw [hown] at hresult hfound
        rw [hinlined] at hstyle hkeys ⊢
        cases hdeclare : declare (.ofFunction g) e d with
        | mk result e' =>
          rw [hdeclare] at hresult hafter hothers hfound
          cases result with
          | error error => cases hresult
          | ok token =>
            obtain ⟨entry, style', vars⟩ := token
            cases hresult
            have hstyle' : ∀ d' ∈ inlined g rest, e'.style g d'.key d'.toCss = d'.style g := by
              intro d' hd'
              have hmem := List.mem_cons_of_mem d hd'
              exact style_kept hown (hfound _ rfl) hothers
                (hkeys d' hmem d List.mem_cons_self) (hstyle d' hmem)
            obtain ⟨hgather, hcompiled, hcache⟩ := ih _ _ hafter hstyle' fun d₁ h₁ d₂ h₂ =>
              hkeys d₁ (List.mem_cons_of_mem _ h₁) d₂ (List.mem_cons_of_mem _ h₂)
            refine ⟨hgather, hcompiled, ?_⟩
            intro k hk
            rw [hcache k fun d' hd' => hk d' (List.mem_cons_of_mem _ hd')]
            exact hothers k (hk d List.mem_cons_self).symm

theorem map_injective {α β : Type} {f : α → β} (hf : Function.Injective f) {x y : Except Error α}
    (h : x.map f = y.map f) : x = y := by
  cases x with
  | error error =>
    cases y with
    | error error' =>
      cases h
      rfl
    | ok b => cases h
  | ok a =>
    cases y with
    | error error => cases h
    | ok b => exact congrArg Except.ok (hf (Except.ok.inj h))

theorem gather_compiledOnce {hash : String} {position : Nat} {parts : Parts}
    {interpolations : List Interpolation} (h : CompiledOnce g e) :
    CompiledOnce g (gather (.ofFunction g) hash e position parts interpolations).2 := by
  induction interpolations generalizing e position parts with
  | nil => exact h
  | cons i rest ih =>
    cases i with
    | empty => exact ih h
    | value text => exact ih h
    | mixin token => exact ih h
    | declarations d =>
      have hd : CompiledOnce g (declare (.ofFunction g) e d).2 := (obtain_spec h _ _ _).compiledOnce
      unfold gather
      cases hdeclare : declare (.ofFunction g) e d with
      | mk result e' =>
        rw [hdeclare] at hd
        cases result with
        | error error => exact hd
        | ok token => exact ih hd

namespace Request

theorem run_compiledOnce (h : CompiledOnce g e) (r : Request) :
    CompiledOnce g (r.run (.ofFunction g) e).2 := by
  cases r with
  | declarations d => exact (obtain_spec h _ _ _).compiledOnce
  | css fragments interpolations =>
    change CompiledOnce g (Style.css (.ofFunction g) e fragments interpolations).2
    unfold Style.css
    split
    · exact h
    · have hgather : CompiledOnce g (gather (.ofFunction g) (templateHash fragments) e 1 .empty
          interpolations).2 := gather_compiledOnce h
      dsimp only
      cases hresult : gather (.ofFunction g) (templateHash fragments) e 1 .empty interpolations with
      | mk result e' =>
        rw [hresult] at hgather
        cases result with
        | error error => exact hgather
        | ok parts => exact (obtain_spec hgather _ _ _).compiledOnce

end Request

theorem compiledOnce_after (g : Call → Except Error CompiledCss) (requests : List Request) :
    CompiledOnce g (.after (.ofFunction g) requests) := by
  unfold Engine.after
  have hfold : ∀ e, CompiledOnce g e →
      CompiledOnce g (requests.foldl (fun e r => (r.run (.ofFunction g) e).2) e) := by
    induction requests with
    | nil => exact fun e h => h
    | cons r requests ih => exact fun e h => ih _ (r.run_compiledOnce h)
  exact hfold _ (compiledOnce_new g)

namespace Request

variable {r : Request}

def answer (g : Call → Except Error CompiledCss) (e : Engine) (r : Request) :
    Except Error (CompiledStyle × Variables) :=
  match r.own g with
  | .error error => .error error
  | .ok (key, source, vars) => (e.style g key source).map fun style => (style, vars)

section Hashed

variable {fragments : List String} {interpolations : List Interpolation}

theorem hashed_css (harity : ¬ fragments.length ≠ interpolations.length + 1) :
    (css fragments interpolations).hashed g =
      String.join fragments ::
        ((inlined g interpolations).flatMap fun d => [d.toCss, shortHash d.toCss]) ++
        match collect g (templateHash fragments) 1 .empty interpolations with
        | .ok parts => [templateHash fragments ++ parts.mixins]
        | .error _ => [] :=
  if_neg harity

theorem fragments_hashed (harity : ¬ fragments.length ≠ interpolations.length + 1) :
    String.join fragments ∈ (css fragments interpolations).hashed g := by
  rw [hashed_css harity]
  exact List.mem_cons_self

theorem mapping_hashed (harity : ¬ fragments.length ≠ interpolations.length + 1) {d : Declarations}
    (hd : d ∈ inlined g interpolations) :
    d.toCss ∈ (css fragments interpolations).hashed g ∧
      shortHash d.toCss ∈ (css fragments interpolations).hashed g := by
  rw [hashed_css harity]
  constructor
  · refine List.mem_append_left _ (List.mem_cons_of_mem _ (List.mem_flatMap.2 ⟨d, hd, ?_⟩))
    exact List.mem_cons_self
  · refine List.mem_append_left _ (List.mem_cons_of_mem _ (List.mem_flatMap.2 ⟨d, hd, ?_⟩))
    exact List.mem_cons_of_mem _ List.mem_cons_self

theorem parts_hashed (harity : ¬ fragments.length ≠ interpolations.length + 1) {parts : Parts}
    (h : collect g (templateHash fragments) 1 .empty interpolations = .ok parts) :
    templateHash fragments ++ parts.mixins ∈ (css fragments interpolations).hashed g := by
  rw [hashed_css harity, h]
  exact List.mem_append_right _ (List.mem_singleton.2 rfl)

theorem mixins_empty : Mixins "" :=
  nofun

theorem keys_apart (harity : ¬ fragments.length ≠ interpolations.length + 1)
    (hinj : Set.InjOn shortHash {s | s ∈ (css fragments interpolations).hashed g}) :
    (∀ d ∈ inlined g interpolations, ∀ d' ∈ inlined g interpolations,
      d.key = d'.key → d.toCss = d'.toCss) ∧
    ∀ parts, collect g (templateHash fragments) 1 .empty interpolations = .ok parts →
      ∀ d ∈ inlined g interpolations, d.key ≠ shortHash (templateHash fragments ++ parts.mixins) := by
  have hkey : ∀ d : Declarations, d.key = shortHash (shortHash d.toCss ++ "") := by
    intro d
    rw [String.append_empty]
    rfl
  constructor
  · intro d hd d' hd' heq
    obtain ⟨hcss, hhash⟩ := mapping_hashed harity hd
    obtain ⟨hcss', hhash'⟩ := mapping_hashed harity hd'
    exact hinj hcss hcss' (hinj hhash hhash' heq)
  · intro parts hparts d hd heq
    obtain ⟨hcss, hhash⟩ := mapping_hashed harity hd
    obtain ⟨m, hmixins, hm, hne⟩ := collect_mixins hparts
    have hm' : parts.mixins = m := hmixins.trans (String.empty_append)
    rw [hkey, hm'] at heq
    have hown := parts_hashed harity hparts
    rw [hm'] at hown
    obtain ⟨-, hempty⟩ := (key_eq_iff hinj hcss (fragments_hashed harity)
      (by rw [String.append_empty]; exact hhash) hown mixins_empty hm).1 heq
    exact hne (List.ne_nil_of_mem hd) hempty.symm

end Hashed

theorem seen_run (h : CompiledOnce g e)
    (hstyle : ∀ d ∈ r.mappings g, e.style g d.key d.toCss = d.style g)
    (hinj : Set.InjOn shortHash {s | s ∈ r.hashed g}) :
    seen (r.run (.ofFunction g) e).1 = r.answer g e := by
  cases r with
  | declarations d => exact (obtain_spec h _ _ _).result
  | css fragments interpolations =>
    by_cases harity : fragments.length ≠ interpolations.length + 1
    · unfold answer own run Style.css
      dsimp only
      rw [if_pos harity, if_pos harity]
      rfl
    · obtain ⟨hkeys, hapart⟩ := keys_apart harity hinj
      have hmappings : (css fragments interpolations).mappings g = inlined g interpolations :=
        if_neg harity
      rw [hmappings] at hstyle
      obtain ⟨hgather, hcompiled, hcache⟩ :=
        gather_eq (templateHash fragments) 1 .empty h hstyle hkeys
      unfold answer own run Style.css
      dsimp only
      rw [if_neg harity, if_neg harity]
      cases hresult : gather (.ofFunction g) (templateHash fragments) e 1 .empty interpolations with
      | mk result e' =>
        rw [hresult] at hgather hcompiled hcache
        dsimp only at hgather
        rw [← hgather]
        cases result with
        | error error => rfl
        | ok parts =>
          have hsame := hcache _ (hapart parts hgather.symm)
          apply (obtain_spec hcompiled _ _ _).result.trans
          change (e'.style g _ _).map _ = (e.style g _ _).map _
          unfold Engine.style
          rw [hsame]

theorem style_new (g : Call → Except Error CompiledCss) (key source : String) :
    Engine.new.style g key source = styleOf g (callOf key source) :=
  rfl

theorem transparent_iff_keeps (h : CompiledOnce g e)
    (hseen : seen (r.run (.ofFunction g) e).1 = r.answer g e)
    (hnew : seen (r.run (.ofFunction g) .new).1 = r.answer g .new) :
    r.Transparent g e ↔
      ∀ key source vars, r.own g = .ok (key, source, vars) → e.Keeps g key source := by
  unfold Transparent
  rw [hseen, hnew]
  unfold answer
  cases hown : r.own g with
  | error error =>
    apply iff_of_true rfl
    intro key source vars hok
    cases hok
  | ok own =>
    obtain ⟨key, source, vars⟩ := own
    dsimp only
    constructor
    · intro hsame key' source' vars' hok
      cases hok
      refine (keeps_iff h).2 (map_injective ?_ hsame)
      exact fun _ _ heq => congrArg Prod.fst heq
    · intro hkeeps
      rw [(keeps_iff h).1 (hkeeps key source vars rfl)]
      rfl

/-- The request with the mappings that it looks up, each by itself. -/
def parts (g : Call → Except Error CompiledCss) (r : Request) : List Request :=
  (r.mappings g).map declarations ++ [r]

theorem declarations_transparent_iff (h : CompiledOnce g e) (d : Declarations) :
    (declarations d).Transparent g e ↔ e.Keeps g d.key d.toCss := by
  rw [transparent_iff_keeps (r := declarations d) h (obtain_spec h _ _ _).result
    (obtain_spec (compiledOnce_new g) _ _ _).result]
  constructor
  · intro hkeeps
    exact hkeeps _ _ _ rfl
  · intro hkeeps key source vars hown
    cases hown
    exact hkeeps

end Request

/-- After any requests, a request and the mappings in it are answered as by a new engine, exactly if
nothing has been compiled under their keys to another style than their own sources compile to. -/
theorem transparent_iff (g : Call → Except Error CompiledCss) (earlier : List Request) (r : Request)
    (hinj : Set.InjOn shortHash {s | s ∈ r.hashed g}) :
    (∀ q ∈ r.parts g, q.Transparent g (.after (.ofFunction g) earlier)) ↔
      ∀ q ∈ r.parts g, ∀ key source vars, q.own g = .ok (key, source, vars) →
        (Engine.after (.ofFunction g) earlier).Keeps g key source := by
  have h := compiledOnce_after g earlier
  have hmapping := Request.declarations_transparent_iff h
  have hown : (∀ d ∈ r.mappings g, (Engine.after (.ofFunction g) earlier).Keeps g d.key d.toCss) →
      (r.Transparent g (.after (.ofFunction g) earlier) ↔
        ∀ key source vars, r.own g = .ok (key, source, vars) →
          (Engine.after (.ofFunction g) earlier).Keeps g key source) := by
    intro hkeeps
    refine Request.transparent_iff_keeps h (Request.seen_run h ?_ hinj)
      (Request.seen_run (compiledOnce_new g) (fun d _ => Request.style_new g _ _) hinj)
    intro d hd
    exact (keeps_iff h).1 (hkeeps d hd)
  unfold Request.parts
  simp only [List.forall_mem_append, List.forall_mem_map, List.forall_mem_singleton]
  constructor
  · rintro ⟨hmappings, hr⟩
    have hkeeps : ∀ d ∈ r.mappings g, (Engine.after (.ofFunction g) earlier).Keeps g d.key d.toCss :=
      fun d hd => (hmapping d).1 (hmappings d hd)
    refine ⟨?_, (hown hkeeps).1 hr⟩
    intro d hd key source vars heq
    cases heq
    exact hkeeps d hd
  · rintro ⟨hmappings, hr⟩
    have hkeeps : ∀ d ∈ r.mappings g, (Engine.after (.ofFunction g) earlier).Keeps g d.key d.toCss :=
      fun d hd => hmappings d hd _ _ _ rfl
    exact ⟨fun d hd => (hmapping d).2 (hkeeps d hd), (hown hkeeps).2 hr⟩

theorem injOn_pair {s t : String} (h : shortHash s ≠ shortHash t) {S : Set String}
    (hS : ∀ x ∈ S, x = s ∨ x = t) : S.InjOn shortHash := by
  intro x hx y hy heq
  rcases hS x hx with rfl | rfl
  · rcases hS y hy with rfl | rfl
    · rfl
    · exact (h heq).elim
  · rcases hS y hy with rfl | rfl
    · exact (h heq.symm).elim
    · rfl

def echoed (call : Call) : Except Error CompiledCss :=
  .ok ⟨call.source, ∅⟩

def unsplit : Request :=
  .css ["color: ;"] []

def splitUp : Request :=
  .css ["color: ", ";"] [.value "red"]

theorem unsplit_hashed : unsplit.hashed echoed = ["color: ;", shortHash "color: ;"] := by
  decide +kernel

theorem splitUp_hashed : splitUp.hashed echoed = ["color: ;", shortHash "color: ;"] := by
  decide +kernel

theorem hash_apart : shortHash "color: ;" ≠ shortHash (shortHash "color: ;") := by
  decide +kernel

/-- A template without values is given the style of the template that has one in the same place. -/
theorem unsplit_not_transparent :
    ¬ ∀ (g : Call → Except Error CompiledCss) (earlier : List Request) (r : Request),
      Set.InjOn shortHash {s | ∃ q ∈ r :: earlier, s ∈ q.hashed g} →
        r.Transparent g (.after (.ofFunction g) earlier) := by
  intro hall
  have hinj : Set.InjOn shortHash {s | ∃ q ∈ [unsplit, splitUp], s ∈ q.hashed echoed} := by
    apply injOn_pair hash_apart
    rintro s ⟨q, hq, hs⟩
    simp only [List.mem_cons, List.not_mem_nil, or_false] at hq
    rcases hq with rfl | rfl
    · rw [unsplit_hashed] at hs
      simpa using hs
    · rw [splitUp_hashed] at hs
      simpa using hs
  have htransparent := hall echoed [splitUp] unsplit hinj
  have hnot : ¬ unsplit.Transparent echoed (.after (.ofFunction echoed) [splitUp]) := by
    unfold Request.Transparent
    decide +kernel
  exact hnot htransparent

theorem unsplit_own :
    unsplit.own echoed = .ok (shortHash (shortHash "color: ;"), "color: ;", ∅) := by
  decide +kernel

theorem calls_after_unsplit :
    (Engine.after (.ofFunction echoed) [unsplit]).calls =
      [callOf (shortHash (shortHash "color: ;")) "color: ;"] := by
  decide +kernel

theorem unsplit_transparent_again :
    Set.InjOn shortHash {s | s ∈ unsplit.hashed echoed} ∧
      ∀ q ∈ unsplit.parts echoed, q.Transparent echoed (.after (.ofFunction echoed) [unsplit]) := by
  have hinj : Set.InjOn shortHash {s | s ∈ unsplit.hashed echoed} := by
    apply injOn_pair hash_apart
    intro s hs
    have hmem : s ∈ unsplit.hashed echoed := hs
    rw [unsplit_hashed] at hmem
    simpa using hmem
  refine ⟨hinj, (transparent_iff echoed [unsplit] unsplit hinj).2 ?_⟩
  intro q hq key source vars hown
  have hparts : unsplit.parts echoed = [unsplit] := rfl
  rw [hparts, List.mem_singleton] at hq
  rw [hq, unsplit_own] at hown
  cases hown
  intro call hcall _ style hstyle
  rw [calls_after_unsplit, List.mem_singleton] at hcall
  rwa [hcall] at hstyle

end ScopedStyles.Style
