import QHGPU.Connector.MainLoop
import QHGPU.Library.LinkedRing
import QHGPU.Library.StepRun

/-!
# The registry of services

The list `services` of `src/qhgpu/qhgpu_daemon.c` in memory, and the functions that add an item,
find one by name and take it off. A step that follows a null or dangling pointer, takes the list
head for an item or uses a library that has been closed has no result.
-/

namespace QHGPU.Connector.Registry

open CString LinkedRing

/-- The address of a `struct _qhgpu_sitem`. -/
abbrev Addr := Nat

/-- What `dlopen` returns, when it is not null. -/
abbrev Handle := Nat

/-- The head of the list and the `struct list_head` in an item. -/
inductive Node where
  | services
  | list (a : Addr)
  deriving DecidableEq, Repr

/-- `struct _qhgpu_sitem`, `src/qhgpu/connector.h:35–39`, without its links. -/
structure Item where
  s : QhgpuService
  libhandle : Option Handle
  deriving DecidableEq, Repr

/-- The calls into a library. -/
inductive Event where
  | finit (lh : Handle)
  | dlclose (lh : Handle)
  deriving DecidableEq, Repr

/-- The links, what is in each item, how often `dlopen` has returned each handle since it was
last closed, and the calls made so far. -/
structure State where
  lists : Heap Node
  item : Addr → Item
  refs : Handle → Nat
  events : List Event

/-- `LIST_HEAD(services)`, `src/qhgpu/qhgpu_daemon.c:22`; there is no item yet. -/
def State.start : State where
  lists := {
    live
      | .services => true
      | .list _ => false
    prev := some
    next := some }
  item _ := ⟨⟨[], 0, 0, 0⟩, none⟩
  refs _ := 0
  events := []

/-! ### Accesses -/

/-- The fields of an item. -/
def State.getItem (st : State) (i : Addr) : Option Item :=
  if st.lists.live (.list i) then some (st.item i) else none

/-- The library is open. -/
def State.isOpen (st : State) (lh : Handle) : Bool := decide (0 < st.refs lh)

/-- `i->s->name`. The service is data of its library. -/
def State.getName (st : State) (i : Addr) : Option (List UInt8) := do
  let item ← st.getItem i
  if item.libhandle.all st.isOpen then some item.s.name else none

/-- `list_entry(e, struct _qhgpu_sitem, list)`, `src/qhgpu/list.h:69–70`. -/
def listEntry : Option Node → Option Addr
  | some (.list a) => some a
  | _ => none

/-! ### The functions -/

/-- The loop of `lookup_qhgpu_sitem`, `src/qhgpu/qhgpu_daemon.c:36–43`, from `e` on, in less than
`fuel` turns. -/
def lookupFrom (st : State) (name : List UInt8) : Nat → Option Node → Option (Option Addr)
  | 0, _ => none
  | fuel + 1, e =>
    if e = some .services then some none
    else do
      let i ← listEntry e
      let found ← st.getName i
      if strncmp name found qhgpuServiceNameSize = 0 then some (some i)
      else do
        let e ← st.lists.getNext e
        lookupFrom st name fuel e

/-- `lookup_qhgpu_sitem`, `src/qhgpu/qhgpu_daemon.c:28–44`. -/
def lookupQhgpuSitem (fuel : Nat) (st : State) : Option (List UInt8) → Option (Option Addr)
  | none => some none
  | some name => do
    let e ← st.lists.getNext (some .services)
    lookupFrom st name fuel e

/-- `qc_register_service`, `src/qhgpu/qhgpu_daemon.c:56–73`, when `malloc` returns `i`. It never
gives out an address in use. -/
def qcRegisterService (s : Option QhgpuService) (libhandle : Option Handle) (i : Option Addr)
    (st : State) : Option (State × Int) :=
  match s, i with
  | some s, some i =>
    if st.lists.live (.list i) then some (st, 1)
    else do
      let lists ← initListHead (st.lists.alloc (.list i)) (some (.list i))
      let lists ← listAddTail lists (some (.list i)) (some .services)
      some ({ st with lists := lists, item := Function.update st.item i ⟨s, libhandle⟩ }, 0)
  | _, _ => some (st, 1)

/-- `__unregister_service`, `src/qhgpu/qhgpu_daemon.c:75–84`. -/
def unregisterService (st : State) : Option Addr → Option (State × Int)
  | none => some (st, 1)
  | some i => do
    let lists ← listDel st.lists (some (.list i))
    some ({ st with lists := lists.free (.list i) }, 0)

/-- `qc_unregister_service`, `src/qhgpu/qhgpu_daemon.c:86–89`. -/
def qcUnregisterService (fuel : Nat) (name : Option (List UInt8)) (st : State) :
    Option (State × Int) := do
  let i ← lookupQhgpuSitem fuel st name
  unregisterService st i

/-- `dlopen` returns `lh`, once more if the library is open already. -/
def dlopen (lh : Handle) (st : State) : State :=
  { st with refs := Function.update st.refs lh (st.refs lh + 1) }

/-- `dlclose`. The library stays open until each `dlopen` has had its `dlclose`. -/
def dlclose (lh : Handle) (st : State) : Option State :=
  if st.isOpen lh then
    some { st with
      refs := Function.update st.refs lh (st.refs lh - 1)
      events := st.events ++ [.dlclose lh] }
  else none

/-- The argument `unreg_srv` of `fn_finit_service`, `src/qhgpu/qhgpu_daemon.h:34–35`. -/
abbrev UnregSrv := Option (List UInt8) → State → Option (State × Int)

/-- `fn_finit_service`, `src/qhgpu/qhgpu_daemon.h:34–35`. -/
abbrev Finit := Handle → UnregSrv → State → Option (State × Int)

/-- The call of `finit` in `__unload_service` and the warning after it,
`src/qhgpu/qhgpu_daemon.c:173–179`. -/
def callFinit (fuel : Nat) (finit : Finit) (i : Addr) (lh : Handle) (st : State) :
    Option (State × Int) := do
  let (st, code) ← finit lh (qcUnregisterService fuel)
    { st with events := st.events ++ [.finit lh] }
  if code ≠ 0 then do
    let _ ← st.getName i
    some (st, 1)
  else some (st, 0)

/-- `__unload_service`, `src/qhgpu/qhgpu_daemon.c:159–190`; `dlsym` looks for `SERVICE_FINIT`. -/
def unloadService (fuel : Nat) (dlsym : Handle → Option Finit) (st : State) :
    Option Addr → Option (State × Int)
  | none => some (st, 1)
  | some i => do
    let item ← st.getItem i
    match item.libhandle with
    | none => do
      let (st, _) ← unregisterService st (some i)
      some (st, 0)
    | some lh =>
      if st.isOpen lh then do
        let (st, r) ← match dlsym lh with
          | some finit => callFinit fuel finit i lh st
          | none => do
            let (st, _) ← unregisterService st (some i)
            some (st, 0)
        let st ← dlclose lh st
        some (st, r)
      else none

/-- The loop of `qc_unload_all_services`, `src/qhgpu/qhgpu_daemon.c:201–203`, at `p` with `n`
saved, in less than `turns` turns. -/
def unloadFrom (fuel : Nat) (dlsym : Handle → Option Finit) :
    Nat → State → Option Node → Option Node → Int → Option (State × Int)
  | 0, _, _, _, _ => none
  | turns + 1, st, p, n, e =>
    if p = some .services then some (st, e)
    else do
      let i ← listEntry p
      let (st, r) ← unloadService fuel dlsym st (some i)
      let n' ← st.lists.getNext n
      unloadFrom fuel dlsym turns st n n' (e + r)

/-- `qc_unload_all_services`, `src/qhgpu/qhgpu_daemon.c:197–205`. No loop takes `fuel` turns. -/
def qcUnloadAllServices (fuel : Nat) (dlsym : Handle → Option Finit) (st : State) :
    Option (State × Int) := do
  let p ← st.lists.getNext (some .services)
  let n ← st.lists.getNext p
  unloadFrom fuel dlsym fuel st p n 0

/-! ### The list in memory -/

/-- An item with its address. -/
abbrev Entry := Addr × Item

/-- The nodes of the items. -/
def nodes (items : List Entry) : List Node := items.map fun e ↦ .list e.1

/-- The handles that are not null. -/
def handles (items : List Entry) : List Handle := items.flatMap fun e ↦ e.2.libhandle.toList

/-- The list in memory has these items in this order, no other item is allocated, and the
library of each item has a `dlopen` of its own that is not closed. -/
structure Contents (st : State) (items : List Entry) : Prop where
  ring : Ring st.lists .services (nodes items)
  item : ∀ e ∈ items, st.item e.1 = e.2
  live : ∀ a, st.lists.live (.list a) = true → ∃ e ∈ items, e.1 = a
  usable : ∀ lh, (handles items).count lh ≤ st.refs lh

variable {st st' : State} {items pre post : List Entry} {e : Entry} {name : List UInt8}
  {fuel : Nat}

/-- The fields of an item on the list can be read. -/
theorem Contents.getItem (h : Contents st items) (he : e ∈ items) :
    st.getItem e.1 = some e.2 := by
  have hlive : st.lists.live (.list e.1) = true :=
    h.ring.live _ (List.mem_cons_of_mem _ (List.mem_map_of_mem he))
  rw [State.getItem, if_pos hlive, h.item e he]

/-- The handles of two lists in a row. -/
theorem handles_append (items items' : List Entry) :
    handles (items ++ items') = handles items ++ handles items' := List.flatMap_append

/-- The handle of the first item comes first. -/
theorem handles_cons (e : Entry) (items : List Entry) :
    handles (e :: items) = e.2.libhandle.toList ++ handles items := List.flatMap_cons

/-- The library of an item on the list is open. -/
theorem Contents.isOpen (h : Contents st items) (he : e ∈ items) {lh : Handle}
    (hlh : e.2.libhandle = some lh) : st.isOpen lh = true := by
  have hmem : lh ∈ handles items := by
    apply List.mem_flatMap.mpr
    exact ⟨e, he, by simp [hlh]⟩
  exact decide_eq_true (Nat.lt_of_lt_of_le (List.count_pos_iff.mpr hmem) (h.usable lh))

private theorem Contents.getName (h : Contents st items) (he : e ∈ items) :
    st.getName e.1 = some e.2.s.name := by
  rw [State.getName, h.getItem he]
  refine if_pos ?_
  cases hlh : e.2.libhandle with
  | none => rfl
  | some lh => exact h.isOpen he hlh

/-- The link before these items. -/
def linkTo (items : List Entry) : Option Node := (nodes items ++ [Node.services]).head?

/-- The last item links to the head. -/
@[simp] theorem linkTo_nil : linkTo [] = some .services := rfl

/-- The link before a list leads to its first item. -/
@[simp] theorem linkTo_cons (e : Entry) (items : List Entry) :
    linkTo (e :: items) = some (.list e.1) := rfl

/-- The link of an item leads to the next one. -/
theorem Contents.getNext (h : Contents st (pre ++ e :: post)) :
    st.lists.getNext (some (.list e.1)) = some (linkTo post) := by
  apply h.ring.getNext (.services :: nodes pre)
  simp [nodes]

/-- The link of the head leads to the first item. -/
theorem Contents.getNext_services (h : Contents st items) :
    st.lists.getNext (some .services) = some (linkTo items) := h.ring.getNext [] rfl

/-- There is no item at the start. -/
theorem contents_start : Contents State.start [] := by
  constructor
  · refine ⟨?_, List.nodup_singleton _, List.isChain_pair.mpr ⟨rfl, rfl⟩⟩
    intro x hx
    rw [List.mem_singleton.mp hx]
    rfl
  · simp
  · intro a ha
    cases ha
  · exact fun _ ↦ Nat.le_refl 0

/-! ### What the functions do to the list -/

/-- The same libraries are open, and the same calls were made into them. -/
def State.SameLibraries (st st' : State) : Prop := st'.refs = st.refs ∧ st'.events = st.events

/-- The comparison of `lookup_qhgpu_sitem`. -/
def hasName (name : List UInt8) (e : Entry) : Bool :=
  strncmp name e.2.s.name qhgpuServiceNameSize == 0

/-- An item has the name of its own service. -/
theorem hasName_self (e : Entry) : hasName e.2.s.name e = true :=
  beq_iff_eq.mpr ((strncmp_eq_zero_iff _ _ _).mpr rfl)

private theorem Contents.lookupFrom (h : Contents st (pre ++ post)) (hfuel : post.length < fuel) :
    lookupFrom st name fuel (linkTo post) = some ((post.find? (hasName name)).map Prod.fst) := by
  induction fuel generalizing pre post with
  | zero => exact absurd hfuel (Nat.not_lt_zero _)
  | succ fuel ih =>
    cases post with
    | nil => rfl
    | cons e post =>
      have hfound := h.getName (List.mem_append_right pre List.mem_cons_self)
      have hnext := h.getNext
      rw [List.append_cons] at h
      have hrest := ih h (Nat.lt_of_succ_lt_succ hfuel)
      by_cases hname : strncmp name e.2.s.name qhgpuServiceNameSize = 0
      · have hfirst : hasName name e = true := beq_iff_eq.mpr hname
        simp [Registry.lookupFrom, listEntry, hfound, hname, hfirst]
      · have hfirst : hasName name e = false := beq_eq_false_iff_ne.mpr hname
        simp [Registry.lookupFrom, listEntry, hfound, hname, hfirst, hnext, hrest]

/-- `lookup_qhgpu_sitem` finds the first item with the name. -/
theorem Contents.lookup (h : Contents st items) (hfuel : items.length < fuel) :
    lookupQhgpuSitem fuel st (some name) = some ((items.find? (hasName name)).map Prod.fst) := by
  rw [lookupQhgpuSitem, h.getNext_services]
  exact Contents.lookupFrom (show Contents st ([] ++ items) from h) hfuel

/-- The service in the item is the one that requests for the name get. -/
theorem Contents.lookup_service (h : Contents st items) (name : List UInt8)
    (hfuel : items.length < fuel) :
    (lookupQhgpuSitem fuel st (some name)).map (fun i ↦ i.bind fun a ↦ (st.getItem a).map Item.s) =
      some (qcLookupService (items.map fun e ↦ e.2.s) name) := by
  have hservices : qcLookupService (items.map fun e ↦ e.2.s) name =
      (items.find? (hasName name)).map fun e ↦ e.2.s := List.find?_map ..
  rw [h.lookup hfuel, hservices]
  cases hfind : items.find? (hasName name) with
  | none => rfl
  | some e => simp [h.getItem (List.mem_of_find?_eq_some hfind)]

/-- `qc_register_service` puts a new item at the end. -/
theorem Contents.register (h : Contents st items) {s : QhgpuService} {libhandle : Option Handle}
    {i : Addr} (hfree : st.lists.live (.list i) = false)
    (hopen : ∀ lh, libhandle = some lh → (handles items).count lh < st.refs lh) :
    ∃ st', qcRegisterService (some s) libhandle (some i) st = some (st', 0) ∧
      Contents st' (items ++ [(i, ⟨s, libhandle⟩)]) ∧ st.SameLibraries st' := by
  obtain ⟨h₁, h₂, hinit, hadd, hlive, hring⟩ := h.ring.allocTail hfree
  have hother (e : Entry) (he : e ∈ items) : e.1 ≠ i := by
    rintro rfl
    have := h.ring.live _ (List.mem_cons_of_mem _ (List.mem_map_of_mem he))
    rw [hfree] at this
    cases this
  have hnew : (i, ⟨s, libhandle⟩) ∈ items ++ [(i, Item.mk s libhandle)] :=
    List.mem_append_right _ (List.mem_singleton_self _)
  let st' : State := ⟨h₂, Function.update st.item i ⟨s, libhandle⟩, st.refs, st.events⟩
  refine ⟨st', ?_, ?_, rfl, rfl⟩
  · simp [qcRegisterService, hfree, hinit, hadd, st']
  · constructor
    · rw [nodes, List.map_append]
      exact hring
    · intro e he
      rcases List.mem_append.mp he with he | he
      · rw [← h.item e he]
        exact Function.update_of_ne (hother e he) ..
      · rw [List.mem_singleton.mp he]
        exact Function.update_self ..
    · intro a ha
      by_cases hai : a = i
      · exact ⟨_, hnew, hai.symm⟩
      · have hne : Node.list a ≠ .list i := fun heq ↦ hai (Node.list.inj heq)
        have hlive' : h₂.live (.list a) = true := ha
        rw [hlive, Function.update_of_ne hne] at hlive'
        obtain ⟨e, he, rfl⟩ := h.live a hlive'
        exact ⟨e, List.mem_append_left _ he, rfl⟩
    · intro lh
      rw [handles_append, handles_cons, List.count_append, List.count_append]
      show (handles items).count lh + (libhandle.toList.count lh + 0) ≤ st.refs lh
      cases libhandle with
      | none => exact h.usable lh
      | some lh' =>
        by_cases heq : lh' = lh
        · subst heq
          simpa using Nat.succ_le_of_lt (hopen lh' rfl)
        · simpa [List.count_singleton, heq] using h.usable lh

/-- An item is taken off the list and freed. -/
theorem Contents.unregister (h : Contents st (pre ++ e :: post)) :
    ∃ st', unregisterService st (some e.1) = some (st', 0) ∧ Contents st' (pre ++ post) ∧
      st.SameLibraries st' := by
  have hring := h.ring
  rw [nodes, List.map_append, List.map_cons] at hring
  obtain ⟨h₁, hdel, hlive, hring'⟩ := hring.delFree
  have hmem (e' : Entry) (he' : e' ∈ pre ++ post) : e' ∈ pre ++ e :: post := by
    rw [List.mem_append] at he' ⊢
    exact he'.imp_right (List.mem_cons_of_mem e)
  let st' : State := ⟨h₁.free (.list e.1), st.item, st.refs, st.events⟩
  refine ⟨st', ?_, ?_, rfl, rfl⟩
  · simp [unregisterService, hdel, st']
  · constructor
    · rw [nodes, List.map_append]
      exact hring'
    · exact fun e' he' ↦ h.item e' (hmem e' he')
    · intro a ha
      have hlive' : (h₁.free (.list e.1)).live (.list a) = true := ha
      by_cases hae : a = e.1
      · subst hae
        rw [Heap.live_free, Function.update_self] at hlive'
        cases hlive'
      · have hne : Node.list a ≠ .list e.1 := fun heq ↦ hae (Node.list.inj heq)
        rw [Heap.live_free, Function.update_of_ne hne, hlive] at hlive'
        obtain ⟨e', he', rfl⟩ := h.live a hlive'
        refine ⟨e', ?_, rfl⟩
        rw [List.mem_append, List.mem_cons] at he'
        rw [List.mem_append]
        exact he'.imp_right fun he' ↦ he'.resolve_left fun heq ↦ hae (congrArg Prod.fst heq)
    · intro lh
      have hall := h.usable lh
      rw [handles_append, handles_cons, List.count_append, List.count_append] at hall
      rw [handles_append, List.count_append]
      show _ ≤ st.refs lh
      omega

private theorem Contents.unregister_first (h : Contents st (e :: items)) :
    ∃ st', unregisterService st (some e.1) = some (st', 0) ∧ Contents st' items ∧
      st.SameLibraries st' := Contents.unregister (show Contents st ([] ++ e :: items) from h)

/-- `qc_unregister_service` takes the first item with the name off the list. -/
theorem Contents.unregister_name (h : Contents st items) (name : List UInt8)
    (hfuel : items.length < fuel) :
    ∃ st', qcUnregisterService fuel (some name) st =
        some (st', if items.any (hasName name) then 0 else 1) ∧
      Contents st' (items.eraseP (hasName name)) ∧ st.SameLibraries st' := by
  rw [qcUnregisterService, h.lookup hfuel]
  cases hfind : items.find? (hasName name) with
  | none =>
    have hnone := List.find?_eq_none.mp hfind
    refine ⟨st, ?_, ?_, rfl, rfl⟩
    · rw [if_neg (by simpa using hnone)]
      rfl
    · rwa [List.eraseP_of_forall_not hnone]
  | some e =>
    obtain ⟨hname, pre, post, rfl, hpre⟩ := List.find?_eq_some_iff_append.mp hfind
    obtain ⟨st', hunreg, hst', hevents⟩ := h.unregister
    refine ⟨st', ?_, ?_, hevents⟩
    · rw [if_pos (by simp [hname])]
      exact hunreg
    · rw [List.eraseP_append_right _ (by simpa using hpre), List.eraseP_cons_of_pos hname]
      exact hst'

end QHGPU.Connector.Registry
