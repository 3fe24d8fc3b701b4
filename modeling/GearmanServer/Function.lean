import GearmanServer.State

/-!
# `server_function.c`

The functions of the broker sit on `server->function_list`, looked up by a byte-exact compare
of the name. `malloc` returns a fresh address or, when its oracle says so, `NULL`.
-/

namespace GearmanServer

/-- `gearman_server_function_create(server, NULL)`: `malloc`, `memset`, the default
`max_queue_size`, and `GEARMAN_LIST_ADD` onto `server->function_list`. -/
def gearmanServerFunctionCreate (s : Server) (mallocOk : Bool) : Server × Option Nat :=
  if mallocOk then
    let fn := s.functionTop
    let functions := Function.update s.functions fn
      ({ allocated := true, maxQueueSize := gearmanDefaultMaxQueueSize } : ServerFunction)
    let r := functionLinks.listAdd functions s.functionList s.functionCount fn
    ({ s with
        functions := r.1
        functionList := r.2.1
        functionCount := r.2.2
        functionTop := fn + 1 }, some fn)
  else (s, none)

/-- `gearman_server_function_free`: `GEARMAN_LIST_DEL` from `server->function_list`; the
structure goes back to the allocator. -/
def gearmanServerFunctionFree (s : Server) (fn : Nat) : Server :=
  let r := functionLinks.listDel s.functions s.functionList s.functionCount fn
  { s with functions := r.1, functionList := r.2.1, functionCount := r.2.2 }

def functionNameMatches (f : ServerFunction) (name : Bytes) : Bool :=
  f.functionNameSize == name.length && memcmpEq f.functionName name name.length

def gearmanServerFunctionGet (fuel : Nat) (s : Server) (name : Bytes)
    (functionMalloc nameMalloc : Bool) : Option (Server × Option Nat) := do
  let found ← chainFind (fun f => (s.functions f).next)
    (fun f => functionNameMatches (s.functions f) name) fuel s.functionList
  match found with
  | some fn => pure (s, some fn)
  | none =>
    match gearmanServerFunctionCreate s functionMalloc with
    | (s, none) => pure (s, none)
    | (s, some fn) =>
      if nameMalloc then
        pure (s.modifyFunction fn fun f =>
          { f with functionName := name, functionNameSize := name.length }, some fn)
      else pure (gearmanServerFunctionFree s fn, none)

theorem gearmanServerFunctionGet_cases {fuel : Nat} {s s' : Server} {name : Bytes}
    {fm nm : Bool} {fo : Option Nat}
    (hg : gearmanServerFunctionGet fuel s name fm nm = some (s', fo)) :
    ∃ found, chainFind (fun f => (s.functions f).next)
        (fun f => functionNameMatches (s.functions f) name) fuel s.functionList = some found ∧
      ((∃ fn, found = some fn ∧ s' = s ∧ fo = some fn) ∨
        found = none ∧ (fm = false ∧ s' = s ∧ fo = none ∨
          fm = true ∧ nm = true ∧ s' = (gearmanServerFunctionCreate s true).1.modifyFunction
            s.functionTop (fun f => { f with functionName := name, functionNameSize := name.length }) ∧
            fo = some s.functionTop ∨
          fm = true ∧ nm = false ∧
            s' = gearmanServerFunctionFree (gearmanServerFunctionCreate s true).1 s.functionTop ∧
            fo = none)) := by
  simp only [gearmanServerFunctionGet, Option.bind_eq_bind, Option.bind_eq_some] at hg
  obtain ⟨found, hfound, hg⟩ := hg
  refine ⟨found, hfound, ?_⟩
  rcases found with _ | fn
  swap
  · simp only [Option.pure_def, Option.some.injEq, Prod.mk.injEq] at hg
    exact .inl ⟨fn, rfl, hg.1.symm, hg.2.symm⟩
  refine .inr ⟨rfl, ?_⟩
  cases fm <;> cases nm <;>
    simp only [gearmanServerFunctionCreate, Bool.false_eq_true, if_true, if_false,
      Option.pure_def, Option.some.injEq, Prod.mk.injEq] at hg
  · exact .inl ⟨rfl, hg.1.symm, hg.2.symm⟩
  · exact .inl ⟨rfl, hg.1.symm, hg.2.symm⟩
  · exact .inr (.inr ⟨rfl, rfl, hg.1.symm, hg.2.symm⟩)
  · exact .inr (.inl ⟨rfl, rfl, hg.1.symm, hg.2.symm⟩)

end GearmanServer
