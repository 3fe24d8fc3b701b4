import GearmanServer.Dedup

/-!
# Runs of `gearman_server_function_get`

Any sequence of `gearman_server_function_get` calls, with any names, turns and `malloc`
outcomes, keeps `server->function_list` a well-formed list of functions with pairwise
different names. Each call returns the function of its name when there is one and writes
nothing, creates and links a function of that name when there is none, and otherwise returns
`NULL` with the list as it was: a created function whose name could not be allocated is
unlinked again by `gearman_server_function_free`.
-/

namespace GearmanServer

theorem ServerFunction.eq_of_body {f g : ServerFunction} (hb : f.body = g.body)
    (hn : f.next = g.next) (hp : f.prev = g.prev) : f = g := by
  have ef : f = { f.body with next := f.next, prev := f.prev } := rfl
  have eg : g = { g.body with next := g.next, prev := g.prev } := rfl
  rw [ef, eg, hb, hn, hp]

section
variable {s s' : Server} {fs : List Nat} {fuel : Nat} {name : Bytes}

theorem FunctionsInv.get_returns (fm nm : Bool) (h : FunctionsInv s fs) (hf : fs.length ≤ fuel) :
    ∃ r, gearmanServerFunctionGet fuel s name fm nm = some r := by
  have hc : chainFind (fun f => (s.functions f).next)
      (fun f => functionNameMatches (s.functions f) name) fuel s.functionList = some _ :=
    chainFind_of_le h.list.chain hf
  simp only [gearmanServerFunctionGet, hc, Option.bind_eq_bind, Option.some_bind]
  split
  · exact ⟨_, rfl⟩
  · split
    · exact ⟨_, rfl⟩
    · split <;> exact ⟨_, rfl⟩

theorem FunctionsInv.get_progress (name : Bytes) (h : FunctionsInv s fs) (hf : fs.length ≤ fuel) :
    ∃ s' fn, gearmanServerFunctionGet fuel s name true true = some (s', some fn) := by
  have hc : chainFind (fun f => (s.functions f).next)
      (fun f => functionNameMatches (s.functions f) name) fuel s.functionList = some _ :=
    chainFind_of_le h.list.chain hf
  simp only [gearmanServerFunctionGet, hc, Option.bind_eq_bind, Option.some_bind]
  split
  · exact ⟨_, _, rfl⟩
  · rw [gearmanServerFunctionCreate_true]
    exact ⟨_, _, rfl⟩

theorem FunctionsInv.get_none {fm nm : Bool} (h : FunctionsInv s fs)
    (hg : gearmanServerFunctionGet fuel s name fm nm = some (s', none)) :
    s'.functionList = s.functionList ∧ s'.functionCount = s.functionCount ∧
      ∀ f, f ≠ s.functionTop → s'.functions f = s.functions f := by
  obtain ⟨-, -, ⟨_, -, -, ⟨⟩⟩ | ⟨-, ⟨-, rfl, -⟩ | ⟨-, -, -, ⟨⟩⟩ | ⟨rfl, -, rfl, -⟩⟩⟩ :=
    gearmanServerFunctionGet_cases hg
  · exact ⟨rfl, rfl, fun _ _ => rfl⟩
  · -- the create put the fresh function at the head; the free takes it off again
    set F := Function.update s.functions s.functionTop
      ({ allocated := true, maxQueueSize := gearmanDefaultMaxQueueSize } : ServerFunction)
    have hF : ∀ f, f ≠ s.functionTop → F f = s.functions f := fun f hf =>
      Function.update_noteq hf _ _
    have hd : functionLinks.DChain F s.functionList fs :=
      h.list.toDChain.congr fun f hf => by rw [hF f (Nat.ne_of_lt (h.lt_top f hf))]; simp
    refine ⟨(hd.listDel_listAdd s.functionCount (Nat.succ_ne_self s.functionTop)).1,
      Nat.add_sub_cancel _ _,
      fun f hf => ?_⟩
    obtain ⟨-, hn, hp⟩ := hd.listDel_listAdd s.functionCount hf
    refine ServerFunction.eq_of_body ?_ (by rw [← hF f hf]; exact hn) (by rw [← hF f hf]; exact hp)
    rw [← hF f hf]
    exact (functionLinks.field_listDel ServerFunction.body (fun _ _ => rfl) (fun _ _ => rfl)
      _ (some s.functionTop) (s.functionCount + 1) s.functionTop f).trans
      (functionLinks.field_listAdd ServerFunction.body (fun _ _ => rfl) (fun _ _ => rfl) F
        s.functionList s.functionCount s.functionTop f)

end

inductive FunctionGets (s₀ : Server) : Server → Prop
  | refl : FunctionGets s₀ s₀
  | get {s s' : Server} {fuel : Nat} {name : Bytes} {fm nm : Bool} {fo : Option Nat} :
      FunctionGets s₀ s → gearmanServerFunctionGet fuel s name fm nm = some (s', fo) →
      FunctionGets s₀ s'

section
variable {s₀ s s' : Server}

theorem FunctionGets.functionsInv {fs₀ : List Nat} (h₀ : FunctionsInv s₀ fs₀)
    (hr : FunctionGets s₀ s) : ∃ fs, FunctionsInv s fs := by
  induction hr with
  | refl => exact ⟨fs₀, h₀⟩
  | get _ hg ih =>
    obtain ⟨fs, h⟩ := ih
    obtain ⟨fs', h', -⟩ := (h.get hg).2.2.2
    exact ⟨fs', h'⟩

theorem function_get_run_keeps_names_distinct (h₀ : Initial s₀) (hr : FunctionGets s₀ s) :
    ∃ fs, FunctionsInv s fs ∧ s.functionCount = fs.length ∧
      fs.Pairwise (fun f g =>
        functionNameMatches (s.functions f) (s.functions g).functionName = false) ∧
      ∀ (fuel : Nat) (name : Bytes) (fm nm : Bool),
        (fs.length ≤ fuel → ∃ r, gearmanServerFunctionGet fuel s name fm nm = some r) ∧
        (fs.length ≤ fuel → fm = true → nm = true →
          ∃ s' fn, gearmanServerFunctionGet fuel s name fm nm = some (s', some fn)) ∧
        ∀ s' fo, gearmanServerFunctionGet fuel s name fm nm = some (s', fo) →
          (∀ f ∈ fs, (s.functions f).functionName = name → s' = s ∧ fo = some f) ∧
          ((∀ f ∈ fs, (s.functions f).functionName ≠ name) → ∀ fn, fo = some fn →
            fn ∉ fs ∧ FunctionsInv s' (fn :: fs) ∧ (s'.functions fn).functionName = name) ∧
          (fo = none → s'.functionList = s.functionList ∧ s'.functionCount = s.functionCount ∧
            FunctionsInv s' fs ∧ ∀ f ∈ fs, s'.functions f = s.functions f) := by
  obtain ⟨fs₀, hb₀, -⟩ := BrokerInv.initial h₀
  obtain ⟨fs, h⟩ := hr.functionsInv hb₀.functions
  have hfs : ∀ f ∈ fs, f ≠ s.functionTop := fun f hf => Nat.ne_of_lt (h.lt_top f hf)
  refine ⟨fs, h, h.list.count_eq, h.names.imp_of_mem fun hf _ hne =>
    Bool.eq_false_iff.2 fun e => hne ((functionNameMatches_iff (h.name_size _ hf)).1 e),
    fun fuel name fm nm => ⟨h.get_returns fm nm, fun hf hfm hnm => hfm ▸ hnm ▸ h.get_progress name hf,
      fun s' fo hg =>
      ⟨fun f hf hn => h.get_found hf hn hg, fun hno fn hfo => ?_, fun hfo => ?_⟩⟩⟩
  · -- no function of that name: the one returned is the fresh one
    obtain ⟨-, -, -, fs', h', hor, hmem⟩ := h.get hg
    obtain ⟨hfn, hname⟩ := hmem fn hfo
    have hnot : fn ∉ fs := fun hf => hno fn hf ((h.get_name hf hg).symm.trans hname)
    rcases hor with rfl | ⟨rfl, -⟩
    · exact absurd hfn hnot
    · obtain rfl : fn = s.functionTop := (List.mem_cons.1 hfn).resolve_right hnot
      exact ⟨hnot, h', hname⟩
  · -- `NULL`: the list is back to `fs`, since its count is
    subst hfo
    obtain ⟨hl, hc, he⟩ := h.get_none hg
    obtain ⟨-, -, -, fs', h', hor, -⟩ := h.get hg
    rcases hor with rfl | ⟨rfl, -⟩
    · exact ⟨hl, hc, h', fun f hf => he f (hfs f hf)⟩
    · have := h'.list.count_eq
      rw [hc, h.list.count_eq, List.length_cons] at this
      omega

end

theorem function_get_run_first_call :
    ∃ s fs, FunctionGets {} s ∧ s.functionList = some 0 ∧ FunctionsInv s fs ∧
      s.functionCount = fs.length ∧
      ∃ s' fn, gearmanServerFunctionGet 1 s [103] true true = some (s', some fn) := by
  have hr : FunctionGets {} _ :=
    .get .refl (rfl : gearmanServerFunctionGet 0 {} [102] true true = some (_, some 0))
  obtain ⟨fs, h, hc, -, hg⟩ := function_get_run_keeps_names_distinct initial_empty hr
  exact ⟨_, fs, hr, rfl, h, hc, (hg 1 [103] true true).2.1 (hc ▸ le_refl 1) rfl rfl⟩

end GearmanServer
