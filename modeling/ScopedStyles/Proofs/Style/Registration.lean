import ScopedStyles.Proofs.Style.Lookup

namespace ScopedStyles.Style

variable {c : Compiler} {e : Engine} {call : Call} {out : CompiledCss}

/-- The calls that succeed with what they compile to, each after the earlier ones. -/
def outputs (c : Compiler) (earlier : List Call) : List Call → List (Call × CompiledCss)
  | [] => []
  | call :: later =>
    match c earlier call with
    | .ok out => (call, out) :: outputs c (earlier ++ [call]) later
    | .error _ => outputs c (earlier ++ [call]) later

theorem map_fst_outputs (c : Compiler) (earlier calls : List Call) :
    (outputs c earlier calls).map Prod.fst = succeeded c earlier calls := by
  induction calls generalizing earlier with
  | nil => rfl
  | cons call calls ih =>
    rw [outputs, succeeded]
    cases c earlier call with
    | error error => exact ih _
    | ok out => rw [List.map_cons, ih]

theorem outputs_append (c : Compiler) (earlier a b : List Call) :
    outputs c earlier (a ++ b) = outputs c earlier a ++ outputs c (earlier ++ a) b := by
  induction a generalizing earlier with
  | nil => simp [outputs]
  | cons call a ih =>
    rw [List.cons_append, outputs, outputs]
    cases c earlier call with
    | error error => simp [ih]
    | ok out => simp [ih]

theorem outputs_snoc_error {calls : List Call} {error : Error} (h : c calls call = .error error) :
    outputs c [] (calls ++ [call]) = outputs c [] calls := by
  simp [outputs_append, outputs, h]

theorem outputs_snoc_ok {calls : List Call} (h : c calls call = .ok out) :
    outputs c [] (calls ++ [call]) = outputs c [] calls ++ [(call, out)] := by
  simp [outputs_append, outputs, h]

theorem mem_outputs {earlier calls : List Call} :
    (call, out) ∈ outputs c earlier calls ↔
      ∃ before after, calls = before ++ call :: after ∧ c (earlier ++ before) call = .ok out := by
  induction calls generalizing earlier with
  | nil => simp [outputs]
  | cons first calls ih =>
    have hmem : (call, out) ∈ outputs c earlier (first :: calls) ↔
        (call = first ∧ c earlier first = .ok out) ∨
          (call, out) ∈ outputs c (earlier ++ [first]) calls := by
      rw [outputs]
      cases hfirst : c earlier first with
      | error error => simp
      | ok out' => simp [eq_comm]
    rw [hmem, ih]
    constructor
    · rintro (⟨rfl, hcall⟩ | ⟨before, after, rfl, hcall⟩)
      · exact ⟨[], calls, rfl, by simpa using hcall⟩
      · exact ⟨first :: before, after, rfl, by simpa using hcall⟩
    · rintro ⟨before, after, hsplit, hcall⟩
      cases before with
      | nil =>
        obtain ⟨rfl, rfl⟩ := List.cons.inj hsplit
        exact .inl ⟨rfl, by simpa using hcall⟩
      | cons b before =>
        obtain ⟨rfl, rfl⟩ := List.cons.inj hsplit
        exact .inr ⟨before, after, rfl, by simpa using hcall⟩

def isRegistered (o : Call × CompiledCss) : Bool :=
  !startsBlock o.2.css

/-- Cache and sink as the outputs of all calls make them. -/
structure Recorded (c : Compiler) (e : Engine) : Prop where
  distinct : ((outputs c [] e.calls).map fun o => o.1.key).Nodup
  cached : e.cache.entries = (outputs c [] e.calls).map fun o => (o.1.key, styled o.1 o.2)
  registered : e.sink.entries =
    ((outputs c [] e.calls).filter isRegistered).map fun o => (o.1.key, o.2.css)

theorem recorded_new (c : Compiler) : Recorded c .new :=
  ⟨List.nodup_nil, rfl, rfl⟩

theorem Recorded.refused (h : Recorded c e) {error : Error}
    (hcall : c e.calls call = .error error) : Recorded c (e.refused call) := by
  have houtputs := outputs_snoc_error hcall
  constructor
  · exact houtputs.symm ▸ h.distinct
  · exact houtputs.symm ▸ h.cached
  · exact houtputs.symm ▸ h.registered

theorem Recorded.keys_eq (h : Recorded c e) :
    e.cache.keys = (outputs c [] e.calls).map fun o => o.1.key := by
  rw [Cache.keys, h.cached, List.map_map]
  rfl

theorem Recorded.lookup_none (h : Recorded c e) {key : String} (hkey : key ∉ e.cache.keys) :
    e.sink.get? key = none := by
  apply List.lookup_eq_none_iff.2
  intro entry hentry
  rw [h.registered] at hentry
  obtain ⟨o, ho, rfl⟩ := List.mem_map.1 hentry
  have hcached : o.1.key ∈ e.cache.keys := by
    rw [h.keys_eq]
    exact List.mem_map_of_mem (List.mem_of_mem_filter ho)
  exact bne_iff_ne.2 fun heq => hkey (heq ▸ hcached)

theorem Recorded.extended (h : Recorded c e) (hnew : call.key ∉ e.cache.keys)
    (hcall : c e.calls call = .ok out) : Recorded c (e.extended call out) := by
  have houtputs := outputs_snoc_ok hcall
  constructor
  · simp only [Engine.extended, houtputs, List.map_append, List.map_cons, List.map_nil]
    refine List.nodup_append.2 ⟨h.distinct, List.nodup_singleton _, ?_⟩
    intro key hkey last hlast heq
    rw [List.mem_singleton.1 hlast] at heq
    exact hnew (h.keys_eq ▸ heq ▸ hkey)
  · simp only [Engine.extended, Cache.push, houtputs, h.cached, List.map_append, List.map_cons,
      List.map_nil]
  · simp only [Engine.extended, houtputs, List.filter_append, List.map_append]
    cases hblock : startsBlock out.css with
    | true => simp [isRegistered, hblock, h.registered]
    | false => simp [isRegistered, hblock, h.registered, Sink.insert, h.lookup_none hnew]

theorem obtain_recorded (h : Recorded c e) (key source : String) (vars : Variables) :
    Recorded c (obtain c e key source vars).2 := by
  have hlookup := obtain_lookup c e key source vars
  generalize obtain c e key source vars = r at hlookup
  cases hlookup with
  | hit => exact h
  | failed _ hcall => exact h.refused hcall
  | compiled hnew hcall =>
    refine h.extended ?_ hcall
    rw [callOf_key]
    exact Cache.notMem_of_findFrom hnew

theorem Engine.after_recorded (c : Compiler) (requests : List Request) :
    Recorded c (Engine.after c requests) :=
  Engine.after_keeps (P := Recorded c) (fun _ key source vars h => obtain_recorded h key source vars)
    (recorded_new c) requests

theorem lookup_eq_some_iff_mem {α : Type} {entries : List (String × α)}
    (h : (entries.map (·.1)).Nodup) {key : String} {value : α} :
    entries.lookup key = some value ↔ (key, value) ∈ entries := by
  constructor
  · intro hlookup
    obtain ⟨before, after, rfl, -⟩ := List.lookup_eq_some_iff.1 hlookup
    exact List.mem_append_right _ List.mem_cons_self
  · intro hmem
    obtain ⟨before, after, rfl⟩ := List.append_of_mem hmem
    refine List.lookup_eq_some_iff.2 ⟨before, after, rfl, ?_⟩
    intro entry hentry
    rw [List.map_append, List.map_cons] at h
    have hne := (List.nodup_append.1 h).2.2 entry.1 (List.mem_map_of_mem hentry) key
      List.mem_cons_self
    exact bne_iff_ne.2 hne.symm

theorem Cache.get?_eq_lookup (a : Cache) (key : String) : a.get? key = a.entries.lookup key := by
  have hfrom : ∀ (entries : List (String × CompiledStyle)) i,
      (findFrom key i entries).map (·.2) = entries.lookup key := by
    intro entries
    induction entries with
    | nil => exact fun _ => rfl
    | cons entry entries ih =>
      intro i
      rw [findFrom, List.lookup_cons]
      by_cases hkey : entry.1 = key
      · simp [hkey]
      · simp [hkey, beq_false_of_ne (Ne.symm hkey), ih]
  exact hfrom a.entries 0

namespace Recorded

variable {key css : String} {style : CompiledStyle}

theorem cache_nodup (h : Recorded c e) : e.cache.keys.Nodup := by
  rw [h.keys_eq]
  exact h.distinct

theorem sink_sublist (h : Recorded c e) : (e.sink.entries.map (·.1)).Sublist e.cache.keys := by
  rw [Cache.keys, h.cached, h.registered, List.map_map, List.map_map]
  exact List.filter_sublist.map _

theorem get?_cache (h : Recorded c e) :
    e.cache.get? key = some style ↔
      ∃ o ∈ outputs c [] e.calls, o.1.key = key ∧ styled o.1 o.2 = style := by
  rw [Cache.get?_eq_lookup, lookup_eq_some_iff_mem h.cache_nodup, h.cached]
  simp only [List.mem_map, Prod.mk.injEq]

theorem get?_sink (h : Recorded c e) :
    e.sink.get? key = some css ↔ ∃ o ∈ outputs c [] e.calls,
      isRegistered o = true ∧ o.1.key = key ∧ o.2.css = css := by
  rw [Sink.get?, lookup_eq_some_iff_mem (h.cache_nodup.sublist h.sink_sublist), h.registered]
  simp only [List.mem_map, List.mem_filter, Prod.mk.injEq, and_assoc]

theorem output_unique (h : Recorded c e) {o o' : Call × CompiledCss}
    (ho : o ∈ outputs c [] e.calls) (ho' : o' ∈ outputs c [] e.calls) (hkey : o.1.key = o'.1.key) :
    o = o' :=
  List.inj_on_of_nodup_map h.distinct ho ho' hkey

end Recorded

/-- Another first character stays in front when occurrences of a text are replaced. -/
theorem replaceText_head {s : String} {p x : Char} {ps : List Char}
    (hs : s.toList.head? = some x) (pattern : String) (hpattern : pattern.toList = p :: ps)
    (hne : p ≠ x) (replacement : String) :
    (replaceText s pattern replacement).toList.head? = some x := by
  obtain ⟨cs, hcs⟩ := List.head?_eq_some_iff.1 hs
  rw [replaceText, String.toList_ofList, hcs, hpattern, replaceAll, replaceFrom,
    List.isPrefixOf_cons_cons, beq_false_of_ne hne, Bool.false_and]
  rfl

theorem startsBlock_eq_false_iff {css : String} :
    startsBlock css = false ↔ css.toList.head? ≠ some '\x7b' :=
  beq_eq_false_iff_ne

theorem bareBlock_starts {css : String} (h : startsBlock css = true) (key : String) :
    "&\x7b".toList <+: (bareBlock key css).toList := by
  have hanchored := replaceText_head (beq_iff_eq.1 h) ("." ++ anchorClass key) String.toList_append
    (by decide) "&"
  have hparted := replaceText_head hanchored "\x7d\x7b" rfl (by decide) "\x7d&\x7b"
  obtain ⟨cs, hcs⟩ := List.head?_eq_some_iff.1 hparted
  rw [bareBlock, String.toList_append, hcs]
  exact ⟨cs, rfl⟩

/-- After any requests to any compiler: no key stands twice in the sink, and each is a key of the cache,
with the css of the cached style. The cached keys are those of the successful calls, each once and in
their order, and the keys of the sink stand in this order too. The key of a successful call is in the
sink exactly if its css is no block, and every cached style that is not in the sink is a block of its
anchor. -/
theorem sink_agrees (c : Compiler) (requests : List Request) :
    ((Engine.after c requests).sink.entries.map (·.1)).Nodup ∧
      (∀ entry ∈ (Engine.after c requests).sink.entries, ∃ style,
        (Engine.after c requests).cache.get? entry.1 = some style ∧ style.css = entry.2) ∧
      (Engine.after c requests).cache.keys.Nodup ∧
      (Engine.after c requests).cache.keys =
        (succeeded c [] (Engine.after c requests).calls).map Call.key ∧
      ((Engine.after c requests).sink.entries.map (·.1)).Sublist
        (Engine.after c requests).cache.keys ∧
      (∀ key ∈ (Engine.after c requests).cache.keys, ∃ before call after out, call.key = key ∧
        (Engine.after c requests).calls = before ++ call :: after ∧ c before call = .ok out) ∧
      (∀ before call after out, (Engine.after c requests).calls = before ++ call :: after →
        c before call = .ok out →
          (call.key ∈ (Engine.after c requests).sink.entries.map (·.1) ↔
            out.css.toList.head? ≠ some '\x7b')) ∧
      ∀ key style, (Engine.after c requests).cache.get? key = some style →
        key ∉ (Engine.after c requests).sink.entries.map (·.1) →
          "&\x7b".toList <+: style.css.toList := by
  have h := Engine.after_recorded c requests
  generalize Engine.after c requests = e at h
  have hsink : ∀ o ∈ outputs c [] e.calls,
      o.1.key ∈ e.sink.entries.map (·.1) ↔ startsBlock o.2.css = false := by
    intro o ho
    rw [h.registered, List.map_map, List.mem_map]
    constructor
    · rintro ⟨o', ho', hkey⟩
      obtain ⟨ho', hregistered⟩ := List.mem_filter.1 ho'
      rw [h.output_unique ho ho' hkey.symm]
      simpa [isRegistered] using hregistered
    · intro hblock
      exact ⟨o, List.mem_filter.2 ⟨ho, by simp [isRegistered, hblock]⟩, rfl⟩
  refine ⟨h.cache_nodup.sublist h.sink_sublist, ?_, h.cache_nodup, ?_, h.sink_sublist, ?_, ?_, ?_⟩
  · intro entry hentry
    have hget := (lookup_eq_some_iff_mem (h.cache_nodup.sublist h.sink_sublist)).2 hentry
    obtain ⟨o, ho, hregistered, hkey, hcss⟩ := h.get?_sink.1 hget
    refine ⟨styled o.1 o.2, h.get?_cache.2 ⟨o, ho, hkey, rfl⟩, ?_⟩
    have hblock : startsBlock o.2.css = false := by simpa [isRegistered] using hregistered
    rw [styled, hblock]
    exact hcss
  · rw [h.keys_eq, ← map_fst_outputs, List.map_map]
    rfl
  · intro key hkey
    rw [h.keys_eq] at hkey
    obtain ⟨⟨call, out⟩, ho, rfl⟩ := List.mem_map.1 hkey
    obtain ⟨before, after, hsplit, hcall⟩ := mem_outputs.1 ho
    exact ⟨before, call, after, out, rfl, hsplit, hcall⟩
  · intro before call after out hsplit hcall
    rw [hsink (call, out) (mem_outputs.2 ⟨before, after, hsplit, hcall⟩), startsBlock_eq_false_iff]
  · intro key style hget hnot
    obtain ⟨o, ho, rfl, rfl⟩ := h.get?_cache.1 hget
    have hblock : startsBlock o.2.css = true := by
      rw [hsink o ho] at hnot
      simpa using hnot
    have hstarts := bareBlock_starts hblock o.1.key
    simpa [styled, hblock] using hstarts

example :
    (Engine.after .counting [.css ["color: red;"] []]).cache.keys =
      [shortHash (shortHash "color: red;")] ∧
      (Engine.after .counting [.css ["color: red;"] []]).sink.entries = [] := by
  decide +kernel

end ScopedStyles.Style
