import GearmanServer.Invariant.Queues

/-!
# The function list and the worker lists

`FunctionsInv s fs`: `server->function_list` is a well-formed list of the functions `fs`, each
named by its own bytes, no two with one name. `WorkersInv s fs`: the worker list of every
connection is finite and serves functions of `fs`, and the worker list of every function is
finite. The job code never writes a worker link; `gearman_server_function_get` adds a fresh
function, named after the search found none of that name.
-/

namespace GearmanServer

def ServerFunction.body (f : ServerFunction) : ServerFunction :=
  { f with next := none, prev := none }

structure FunctionsInv (s : Server) (fs : List Nat) : Prop where
  list : functionLinks.DList s.functions s.functionList s.functionCount fs
  lt_top : ∀ f ∈ fs, f < s.functionTop
  name_size : ∀ f ∈ fs, (s.functions f).functionNameSize = (s.functions f).functionName.length
  names : fs.Pairwise fun f g => (s.functions f).functionName ≠ (s.functions g).functionName

structure WorkersInv (s : Server) (fs : List Nat) : Prop where
  con : ∀ c, ∃ ws, Chain (fun w => (s.workers w).conNext) (s.cons c).workerList ws ∧
    ∀ w ∈ ws, (s.workers w).function ∈ fs
  function : ∀ f ∈ fs, ∃ ws, Chain (fun w => (s.workers w).functionNext) (s.functions f).workerList ws

theorem functionNameMatches_iff {f : ServerFunction} {name : Bytes}
    (h : f.functionNameSize = f.functionName.length) :
    functionNameMatches f name = true ↔ f.functionName = name := by
  simp only [functionNameMatches, memcmpEq, h, Bool.and_eq_true, beq_iff_eq]
  constructor
  · rintro ⟨hl, ht⟩
    rwa [← hl, List.take_length, hl, List.take_length] at ht
  · rintro rfl
    exact ⟨rfl, rfl⟩

section
variable {s s' : Server} {fs : List Nat}

theorem WorkersInv.congr (h : WorkersInv s fs)
    (hw : ∀ w, (s'.workers w).conNext = (s.workers w).conNext ∧
      (s'.workers w).functionNext = (s.workers w).functionNext ∧
      (s'.workers w).function = (s.workers w).function)
    (hc : ∀ c, (s'.cons c).workerList = (s.cons c).workerList)
    (hf : ∀ f ∈ fs, (s'.functions f).workerList = (s.functions f).workerList) :
    WorkersInv s' fs := by
  refine ⟨fun c => ?_, fun f hf' => ?_⟩
  · obtain ⟨ws, hws, hm⟩ := h.con c
    refine ⟨ws, ?_, fun w hw' => (hw w).2.2 ▸ hm w hw'⟩
    rw [hc]
    exact seg_congr hws fun w _ => (hw w).1
  · obtain ⟨ws, hws⟩ := h.function f hf'
    refine ⟨ws, ?_⟩
    rw [hf f hf']
    exact seg_congr hws fun w _ => (hw w).2.1

theorem gearmanServerFunctionCreate_true (s : Server) :
    gearmanServerFunctionCreate s true =
      ({ s with
        functions := (functionLinks.listAdd (Function.update s.functions s.functionTop
          { allocated := true, maxQueueSize := gearmanDefaultMaxQueueSize }) s.functionList
          s.functionCount s.functionTop).1
        functionList := some s.functionTop
        functionCount := s.functionCount + 1
        functionTop := s.functionTop + 1 }, some s.functionTop) := rfl

theorem FunctionsInv.create (h : FunctionsInv s fs) :
    functionLinks.DList (gearmanServerFunctionCreate s true).1.functions
      (gearmanServerFunctionCreate s true).1.functionList
      (gearmanServerFunctionCreate s true).1.functionCount (s.functionTop :: fs) ∧
    ∀ f, f ≠ s.functionTop →
      ((gearmanServerFunctionCreate s true).1.functions f).body = (s.functions f).body := by
  have htop : s.functionTop ∉ fs := fun hm => (h.lt_top _ hm).false
  have hne : ∀ f ∈ fs, f ≠ s.functionTop := fun f hf e => htop (e ▸ hf)
  rw [gearmanServerFunctionCreate_true]
  refine ⟨?_, fun f hf => ?_⟩
  · have hd : functionLinks.DList (Function.update s.functions s.functionTop
        { allocated := true, maxQueueSize := gearmanDefaultMaxQueueSize }) s.functionList
        s.functionCount fs :=
      h.list.congr fun f hf => by simp [Function.update_noteq (hne f hf)]
    exact hd.listAdd htop
  · have e := functionLinks.field_listAdd ServerFunction.body (fun _ _ => rfl) (fun _ _ => rfl)
      (Function.update s.functions s.functionTop
        { allocated := true, maxQueueSize := gearmanDefaultMaxQueueSize })
      s.functionList s.functionCount s.functionTop f
    rw [Function.update_noteq hf] at e
    exact e

theorem FunctionsInv.of_body (h : FunctionsInv s fs)
    (hd : functionLinks.DList s'.functions s'.functionList s'.functionCount fs)
    (htop : s.functionTop ≤ s'.functionTop)
    (hb : ∀ f ∈ fs, (s'.functions f).body = (s.functions f).body) : FunctionsInv s' fs := by
  have hn : ∀ f ∈ fs, (s'.functions f).functionName = (s.functions f).functionName ∧
      (s'.functions f).functionNameSize = (s.functions f).functionNameSize := fun f hf =>
    ⟨(congrArg ServerFunction.functionName (hb f hf) :),
      (congrArg ServerFunction.functionNameSize (hb f hf) :)⟩
  refine ⟨hd, fun f hf => (h.lt_top f hf).trans_le htop, fun f hf => ?_,
    h.names.imp_of_mem fun hf hg hne => ?_⟩
  · rw [(hn f hf).1, (hn f hf).2]
    exact h.name_size f hf
  · rwa [(hn _ hf).1, (hn _ hg).1]

theorem FunctionsInv.create_named (h : FunctionsInv s fs) {name : Bytes}
    (hnone : ∀ f ∈ fs, (s.functions f).functionName ≠ name) :
    FunctionsInv ((gearmanServerFunctionCreate s true).1.modifyFunction s.functionTop fun f =>
        { f with functionName := name, functionNameSize := name.length }) (s.functionTop :: fs) ∧
      (((gearmanServerFunctionCreate s true).1.modifyFunction s.functionTop fun f =>
        { f with functionName := name, functionNameSize := name.length }).functions
          s.functionTop).body =
        { allocated := true, maxQueueSize := gearmanDefaultMaxQueueSize, functionName := name,
          functionNameSize := name.length } := by
  obtain ⟨hd, hbody⟩ := h.create
  have hfs : ∀ f ∈ fs, f ≠ s.functionTop := fun f hf => Nat.ne_of_lt (h.lt_top f hf)
  have hname : ∀ f ∈ fs, ((gearmanServerFunctionCreate s true).1.functions f).functionName =
        (s.functions f).functionName ∧
      ((gearmanServerFunctionCreate s true).1.functions f).functionNameSize =
        (s.functions f).functionNameSize := fun f hf =>
    ⟨(congrArg ServerFunction.functionName (hbody f (hfs f hf)) :),
      (congrArg ServerFunction.functionNameSize (hbody f (hfs f hf)) :)⟩
  have hb₁ := functionLinks.field_listAdd ServerFunction.body (fun _ _ => rfl) (fun _ _ => rfl)
    (Function.update s.functions s.functionTop
      { allocated := true, maxQueueSize := gearmanDefaultMaxQueueSize })
    s.functionList s.functionCount s.functionTop s.functionTop
  rw [Function.update_same] at hb₁
  refine ⟨⟨hd.congr fun f _ => ?_, fun f hf => ?_, fun f hf => ?_, ?_⟩, ?_⟩
  · by_cases hf : f = s.functionTop
    · subst hf; simp [functionLinks]
    · simp [hf]
  · rcases List.mem_cons.1 hf with rfl | hf
    · exact Nat.lt_succ_self _
    · exact Nat.lt_succ_of_lt (h.lt_top f hf)
  · rcases List.mem_cons.1 hf with rfl | hf
    · simp
    · simp only [Server.modifyFunction_functions, if_neg (hfs f hf), (hname f hf).1,
        (hname f hf).2]
      exact h.name_size f hf
  · refine List.pairwise_cons.2 ⟨fun g hg => ?_, ?_⟩
    · simp only [Server.modifyFunction_functions, if_true, if_neg (hfs g hg), (hname g hg).1]
      exact fun e => hnone g hg e.symm
    · refine (h.names).imp_of_mem fun hf hg hne => ?_
      simpa only [Server.modifyFunction_functions, if_neg (hfs _ hf), if_neg (hfs _ hg),
        (hname _ hf).1, (hname _ hg).1] using hne
  · simp only [Server.modifyFunction_functions, if_true]
    simp only [ServerFunction.body, ServerFunction.mk.injEq] at hb₁ ⊢
    simp [gearmanServerFunctionCreate_true, hb₁]

theorem FunctionsInv.get {fuel : Nat} {name : Bytes} {fm nm : Bool} {fo : Option Nat}
    (h : FunctionsInv s fs) (hg : gearmanServerFunctionGet fuel s name fm nm = some (s', fo)) :
    s' = { s with
      functions := s'.functions
      functionList := s'.functionList
      functionCount := s'.functionCount
      functionTop := s'.functionTop } ∧
    s.functionTop ≤ s'.functionTop ∧
    (∀ f, f ≠ s.functionTop → (s'.functions f).body = (s.functions f).body) ∧
    ∃ fs', FunctionsInv s' fs' ∧
      (fs' = fs ∨ fs' = s.functionTop :: fs ∧ (s'.functions s.functionTop).body =
        { allocated := true, maxQueueSize := gearmanDefaultMaxQueueSize, functionName := name,
          functionNameSize := name.length }) ∧
      ∀ fn, fo = some fn → fn ∈ fs' ∧ (s'.functions fn).functionName = name := by
  obtain ⟨found, hfound, ⟨fn, rfl, rfl, rfl⟩ | ⟨rfl, hcase⟩⟩ := gearmanServerFunctionGet_cases hg
  · -- found: the function of that name, nothing written
    have hfind := (chainFind_eq h.list.chain hfound).symm
    have hfn := List.mem_of_find?_eq_some hfind
    exact ⟨rfl, le_rfl, fun _ _ => rfl, fs, h, .inl rfl, fun _ e => by
      cases e; exact ⟨hfn, (functionNameMatches_iff (h.name_size fn hfn)).1 (List.find?_some hfind :)⟩⟩
  have hnone : ∀ f ∈ fs, (s.functions f).functionName ≠ name := fun f hf e =>
    by simpa [(functionNameMatches_iff (h.name_size f hf)).2 e] using
      List.find?_eq_none.1 (chainFind_eq h.list.chain hfound).symm f hf
  obtain ⟨hd, hbody⟩ := h.create
  rcases hcase with ⟨-, rfl, rfl⟩ | ⟨-, -, rfl, rfl⟩ | ⟨-, -, rfl, rfl⟩
  · exact ⟨rfl, le_rfl, fun _ _ => rfl, fs, h, .inl rfl, fun _ e => by cases e⟩
  · -- a fresh function of that name
    obtain ⟨hF, htb⟩ := h.create_named hnone
    exact ⟨rfl, Nat.le_succ _, fun f hf => by simp [hf, hbody f hf], _, hF, .inr ⟨rfl, htb⟩,
      fun _ e => by cases e; exact ⟨List.mem_cons_self _ _, by simp⟩⟩
  · -- the copy of the name failed: the fresh function is freed again
    have hdel := hd.listDel (List.mem_cons_self s.functionTop fs)
    rw [List.erase_cons_head] at hdel
    have hb₂ : ∀ f, f ≠ s.functionTop →
        ((gearmanServerFunctionFree (gearmanServerFunctionCreate s true).1
          s.functionTop).functions f).body = (s.functions f).body := fun f hf =>
      (functionLinks.field_listDel ServerFunction.body (fun _ _ => rfl) (fun _ _ => rfl) _
        (gearmanServerFunctionCreate s true).1.functionList
        (gearmanServerFunctionCreate s true).1.functionCount s.functionTop f).trans (hbody f hf)
    exact ⟨rfl, Nat.le_succ _, hb₂, fs, h.of_body hdel (Nat.le_succ _)
      fun f hf => hb₂ f (Nat.ne_of_lt (h.lt_top f hf)), .inl rfl, fun _ e => by cases e⟩

end

end GearmanServer
