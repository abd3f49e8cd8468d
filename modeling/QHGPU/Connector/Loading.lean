import QHGPU.Connector.Unloading

/-!
# Libraries come and go

`qc_load_service`, `qc_load_all_services` and `qc_unload_service` of
`src/qhgpu/qhgpu_daemon.c` beside the functions of `Registry`. Over any sequence of these calls
the libraries that are open are those of the items on the list, and each is closed at most once.
-/

namespace QHGPU.Connector.Registry

open CString

variable {st st' : State} {items pre post : List Entry} {e : Entry} {name : List UInt8}
  {fuel turns : Nat} {dlsym : Handle → Option Finit}

/-! ### The functions -/

/-- The argument `reg_srv` of `fn_init_service`, `src/qhgpu/qhgpu_daemon.h:30–33`. -/
abbrev RegSrv := Option QhgpuService → Option Handle → State → Option (State × Int)

/-- `fn_init_service`, `src/qhgpu/qhgpu_daemon.h:30–33`, without the OpenCL context and devices
that it is also given. -/
abbrev Init := Handle → RegSrv → State → Option (State × Int)

/-- A file that `glob` has found: what `dlopen` returns for it, what `dlsym` finds as
`SERVICE_INIT`, and what `malloc` returns if it registers a service. -/
structure Library where
  handle : Option Handle
  init : Option Init
  malloc : Option Addr

/-- `qc_load_service`, `src/qhgpu/qhgpu_daemon.c:91–134`. -/
def qcLoadService (lib : Library) (st : State) : Option (State × Int) :=
  match lib.handle with
  | none => some (st, 1)
  | some lh =>
    let st := dlopen lh st
    match lib.init with
    | none => do
      let st ← dlclose lh st
      some (st, 1)
    | some init => do
      let (st, code) ← init lh (fun s libhandle st ↦ qcRegisterService s libhandle lib.malloc st) st
      if code ≠ 0 then do
        let st ← dlclose lh st
        some (st, 1)
      else some (st, 0)

/-- The loop of `qc_load_all_services`, `src/qhgpu/qhgpu_daemon.c:148–152`; `e` counts the
failures and is not used. -/
def loadFrom : List Library → State → Int → Option (State × Int)
  | [], st, e => some (st, e)
  | lib :: libs, st, e => do
    let (st, r) ← qcLoadService lib st
    loadFrom libs st (e + r)

/-- `qc_load_all_services`, `src/qhgpu/qhgpu_daemon.c:136–157`, on the files found. It returns
their number. -/
def qcLoadAllServices (libs : List Library) (st : State) : Option (State × Int) := do
  let (st, _) ← loadFrom libs st 0
  some (st, libs.length)

/-- `qc_unload_service`, `src/qhgpu/qhgpu_daemon.c:192–195`. -/
def qcUnloadService (fuel : Nat) (dlsym : Handle → Option Finit) (name : Option (List UInt8))
    (st : State) : Option (State × Int) := do
  let i ← lookupQhgpuSitem fuel st name
  unloadService fuel dlsym st i

/-- The calls that load and unload. -/
inductive Op where
  | loadService (lib : Library)
  | loadAllServices (libs : List Library)
  | unloadService (name : Option (List UInt8))
  | unloadAllServices

/-- The state after the call. -/
def Op.perform (fuel : Nat) (dlsym : Handle → Option Finit) (st : State) : Op → Option State
  | .loadService lib => (qcLoadService lib st).map Prod.fst
  | .loadAllServices libs => (qcLoadAllServices libs st).map Prod.fst
  | .unloadService name => (qcUnloadService fuel dlsym name st).map Prod.fst
  | .unloadAllServices => (qcUnloadAllServices fuel dlsym st).map Prod.fst

/-- The files that the call tries. -/
def Op.libs : Op → List Library
  | .loadService lib => [lib]
  | .loadAllServices libs => libs
  | _ => []

/-- The handles that `dlopen` returns for the files. -/
def opened (libs : List Library) : List Handle := libs.filterMap Library.handle

/-- What the libraries do with the functions they are given: `init` fails before it registers, or
returns what `reg_srv` returns for its only service, and `finit` returns what `unreg_srv` returns
for the name of that service. -/
def Library.Own (dlsym : Handle → Option Finit) (lib : Library) : Prop :=
  ∃ s : QhgpuService,
    (∀ init, lib.init = some init → ∀ lh reg st,
      init lh reg st = reg (some s) (some lh) st ∨ ∃ c ≠ 0, init lh reg st = some (st, c)) ∧
    ∀ lh, lib.handle = some lh → ∀ finit, dlsym lh = some finit →
      ∀ unreg st, finit lh unreg st = unreg (some s.name) st

/-! ### Unloading by name -/

private theorem UnregistersOwn.mono {items' : List Entry} (h : UnregistersOwn dlsym items)
    (hsub : ∀ e ∈ items', e ∈ items) : UnregistersOwn dlsym items' :=
  fun e he ↦ h e (hsub e he)

/-- The name of an item that was found by a name finds the same items. -/
theorem hasName_eq_of_hasName (hname : hasName name e = true) (e' : Entry) :
    hasName e.2.s.name e' = hasName name e' := by
  have heq := (strncmp_eq_zero_iff _ _ _).mp (beq_iff_eq.mp hname)
  rw [hasName, hasName, Bool.eq_iff_iff, beq_iff_eq, beq_iff_eq, strncmp_eq_zero_iff,
    strncmp_eq_zero_iff, heq]

/-! ### Open libraries -/

/-- The libraries closed, in the order of the calls. -/
def closed (events : List Event) : List Handle := events.filterMap fun
  | .dlclose lh => some lh
  | .finit _ => none

/-- The libraries whose `finit` was called. -/
def finited (events : List Event) : List Handle := events.filterMap fun
  | .finit lh => some lh
  | .dlclose _ => none

/-- The libraries closed by two sequences of calls. -/
@[simp] theorem closed_append (evs evs' : List Event) :
    closed (evs ++ evs') = closed evs ++ closed evs' := List.filterMap_append

/-- The libraries finished by two sequences of calls. -/
@[simp] theorem finited_append (evs evs' : List Event) :
    finited (evs ++ evs') = finited evs ++ finited evs' := List.filterMap_append

private theorem mem_closed {events : List Event} {lh : Handle} :
    lh ∈ closed events ↔ .dlclose lh ∈ events := by
  rw [closed, List.mem_filterMap]
  constructor
  · rintro ⟨ev, hev, hlh⟩
    cases ev with
    | finit => cases hlh
    | dlclose lh' =>
      obtain rfl := Option.some.inj hlh
      exact hev
  · intro hev
    exact ⟨_, hev, rfl⟩

/-- Unloading an item closes its library, if it has one. -/
@[simp] theorem closed_unloadEvents (dlsym : Handle → Option Finit) (e : Entry) :
    closed (unloadEvents dlsym e) = e.2.libhandle.toList := by
  unfold unloadEvents
  cases e.2.libhandle with
  | none => rfl
  | some lh =>
    dsimp only
    split <;> rfl

private theorem finited_unloadEvents (dlsym : Handle → Option Finit) (e : Entry) :
    (finited (unloadEvents dlsym e)).Sublist (closed (unloadEvents dlsym e)) := by
  unfold unloadEvents
  cases e.2.libhandle with
  | none => exact List.Sublist.refl _
  | some lh =>
    dsimp only
    split
    · exact List.Sublist.refl _
    · exact List.nil_sublist _

private theorem closed_flatMap (dlsym : Handle → Option Finit) (items : List Entry) :
    closed (items.flatMap (unloadEvents dlsym)) = handles items := by
  induction items with
  | nil => rfl
  | cons e items ih =>
    rw [List.flatMap_cons, closed_append, ih, closed_unloadEvents]
    rfl

private theorem finited_flatMap (dlsym : Handle → Option Finit) (items : List Entry) :
    (finited (items.flatMap (unloadEvents dlsym))).Sublist
      (closed (items.flatMap (unloadEvents dlsym))) := by
  induction items with
  | nil => exact List.Sublist.refl _
  | cons e items ih =>
    rw [List.flatMap_cons, finited_append, closed_append]
    exact (finited_unloadEvents dlsym e).append ih

/-- The list is in order; each result of `dlopen` is that of one item or was closed once, and the
references still open are those of the items; only libraries that are then closed were asked to
finish. -/
structure Ledger (dlsym : Handle → Option Finit) (st : State) (items : List Entry)
    (opened : List Handle) : Prop where
  contents : Contents st items
  own : UnregistersOwn dlsym items
  loaded : ∀ e ∈ items, e.2.libhandle.isSome = true
  account : (handles items ++ closed st.events).Perm opened
  refs : ∀ lh, st.refs lh = (handles items).count lh
  finited : (finited st.events).Sublist (closed st.events)

variable {handlesOpened : List Handle} {lib : Library}

/-- There are no more items than handles. -/
theorem Ledger.length_le (h : Ledger dlsym st items handlesOpened) :
    items.length ≤ handlesOpened.length := by
  have hlen : (handles items).length = items.length := by
    have hloaded := h.loaded
    clear h
    induction items with
    | nil => rfl
    | cons e items ih =>
      obtain ⟨lh, hlh⟩ := Option.isSome_iff_exists.mp (hloaded e List.mem_cons_self)
      rw [handles, List.flatMap_cons, hlh, Option.toList_some, List.length_append,
        List.length_singleton, List.length_cons, Nat.add_comm]
      exact congrArg (· + 1) (ih fun e' he' ↦ hloaded e' (List.mem_cons_of_mem e he'))
  rw [← hlen, ← h.account.length_eq, List.length_append]
  exact Nat.le_add_right _ _

/-- A library that was just opened is closed again. -/
theorem Ledger.close_new (h : Ledger dlsym st items handlesOpened) (lh : Handle) :
    ∃ st', dlclose lh (dlopen lh st) = some st' ∧
      Ledger dlsym st' items (handlesOpened ++ [lh]) := by
  have hrefs : (dlopen lh st).refs lh = st.refs lh + 1 := Function.update_self ..
  obtain ⟨st', hclose, hst', hrefs', hevents⟩ := (h.contents.dlopen lh).close (by
    rw [hrefs]
    exact Nat.lt_succ_of_le (h.contents.usable lh))
  refine ⟨st', hclose, hst', h.own, h.loaded, ?_, ?_, ?_⟩
  · rw [hevents, closed_append, ← List.append_assoc]
    exact h.account.append_right _
  · intro lh'
    rw [hrefs', hrefs, Nat.add_sub_cancel, ← h.refs lh', dlopen, Function.update_idem,
      Function.update_eq_self]
  · rw [hevents, closed_append, finited_append]
    exact h.finited.append (List.nil_sublist _)

/-- A library that was just opened registers its service. -/
theorem Ledger.register (h : Ledger dlsym st items handlesOpened) {lh : Handle} {s : QhgpuService}
    {i : Addr} (hfinit : ∀ finit, dlsym lh = some finit →
      ∀ unreg st, finit lh unreg st = unreg (some s.name) st)
    (hfree : (dlopen lh st).lists.live (.list i) = false) :
    ∃ st', qcRegisterService (some s) (some lh) (some i) (dlopen lh st) = some (st', 0) ∧
      Ledger dlsym st' (items ++ [(i, ⟨s, some lh⟩)]) (handlesOpened ++ [lh]) := by
  have hrefs : (dlopen lh st).refs = Function.update st.refs lh (st.refs lh + 1) := rfl
  obtain ⟨st', hreg, hst', hrefs', hevents⟩ := (h.contents.dlopen lh).register (s := s) hfree (by
    intro lh' hlh'
    obtain rfl := Option.some.inj hlh'
    rw [hrefs, Function.update_self]
    exact Nat.lt_succ_of_le (h.contents.usable lh))
  refine ⟨st', hreg, hst', ?_, ?_, ?_, ?_, ?_⟩
  · intro e he lh' hlh' finit hdlsym
    rcases List.mem_append.mp he with he | he
    · exact h.own e he lh' hlh' finit hdlsym
    · obtain rfl := List.mem_singleton.mp he
      obtain rfl := Option.some.inj hlh'
      exact hfinit finit hdlsym
  · intro e he
    rcases List.mem_append.mp he with he | he
    · exact h.loaded e he
    · rw [List.mem_singleton.mp he]
      rfl
  · rw [hevents, handles_append, List.append_assoc]
    refine (List.Perm.append_left _ List.perm_append_comm).trans ?_
    rw [← List.append_assoc]
    exact h.account.append_right _
  · intro lh'
    rw [hrefs', hrefs, Function.update_apply, handles_append, List.count_append]
    show _ = _ + [lh].count lh'
    rw [List.count_singleton]
    split
    · next heq => simp [heq, h.refs lh]
    · next hne => simp [Ne.symm hne, h.refs lh']
  · rw [hevents]
    exact h.finited

/-- A file is tried. -/
theorem Ledger.load (h : Ledger dlsym st items handlesOpened) (hown : lib.Own dlsym) :
    ∃ st' items' r, qcLoadService lib st = some (st', r) ∧
      Ledger dlsym st' items' (handlesOpened ++ lib.handle.toList) := by
  obtain ⟨s, hinit, hfinit⟩ := hown
  unfold qcLoadService
  cases hlh : lib.handle with
  | none =>
    refine ⟨st, items, 1, rfl, ?_⟩
    rw [Option.toList_none, List.append_nil]
    exact h
  | some lh =>
    obtain ⟨st₁, hclose, h₁⟩ := h.close_new lh
    -- the library is closed when it has no service
    have fails (c : Int) (hc : c ≠ 0) : ∃ st' items' r,
        (if c ≠ 0 then do
          let st ← dlclose lh (dlopen lh st)
          some (st, (1 : Int))
        else some (dlopen lh st, 0)) = some (st', r) ∧
          Ledger dlsym st' items' (handlesOpened ++ [lh]) := by
      refine ⟨st₁, items, 1, ?_, h₁⟩
      rw [if_pos hc, hclose]
      rfl
    cases hi : lib.init with
    | none =>
      refine ⟨st₁, items, 1, ?_, h₁⟩
      simp only [hclose]
      rfl
    | some init =>
      dsimp only
      rcases hinit init hi lh (fun s libhandle st ↦ qcRegisterService s libhandle lib.malloc st)
        (dlopen lh st) with hcall | ⟨c, hc, hcall⟩
      · rw [hcall]
        cases hmalloc : lib.malloc with
        | none => exact fails 1 (by decide)
        | some i =>
          cases hlive : (dlopen lh st).lists.live (.list i) with
          | true =>
            have hreg : qcRegisterService (some s) (some lh) (some i) (dlopen lh st) =
                some (dlopen lh st, 1) := by
              simp [qcRegisterService, hlive]
            rw [hreg]
            exact fails 1 (by decide)
          | false =>
            obtain ⟨st₂, hreg, h₂⟩ := h.register (hfinit lh hlh) hlive
            rw [hreg]
            exact ⟨st₂, _, 0, rfl, h₂⟩
      · rw [hcall]
        exact fails c hc

/-- Several files are tried, one after the other. -/
theorem Ledger.loadFrom (h : Ledger dlsym st items handlesOpened) (libs : List Library)
    (hown : ∀ lib ∈ libs, lib.Own dlsym) (r : Int) :
    ∃ st' items' r', Registry.loadFrom libs st r = some (st', r') ∧
      Ledger dlsym st' items' (handlesOpened ++ opened libs) := by
  induction libs generalizing st items handlesOpened r with
  | nil =>
    refine ⟨st, items, r, rfl, ?_⟩
    rw [opened, List.filterMap_nil, List.append_nil]
    exact h
  | cons lib libs ih =>
    have hopened : opened (lib :: libs) = lib.handle.toList ++ opened libs := by
      unfold opened
      cases hlh : lib.handle with
      | none => rw [List.filterMap_cons_none hlh, Option.toList_none, List.nil_append]
      | some lh => rw [List.filterMap_cons_some hlh, Option.toList_some, List.singleton_append]
    rw [hopened, ← List.append_assoc]
    obtain ⟨st₁, items₁, r₁, hload, h₁⟩ := h.load (hown lib List.mem_cons_self)
    obtain ⟨st₂, items₂, r₂, hrest, h₂⟩ :=
      ih h₁ (fun lib' hl ↦ hown lib' (List.mem_cons_of_mem _ hl)) (r + r₁)
    refine ⟨st₂, items₂, r₂, ?_, h₂⟩
    rw [Registry.loadFrom, hload]
    exact hrest

/-- A service is unloaded by its name, or there is none. -/
theorem Ledger.unload (h : Ledger dlsym st items handlesOpened) (hfuel : items.length < fuel)
    (name : Option (List UInt8)) :
    ∃ st' items' r, qcUnloadService fuel dlsym name st = some (st', r) ∧
      Ledger dlsym st' items' handlesOpened := by
  have stays (hnone : lookupQhgpuSitem fuel st name = some none) :
      ∃ st' items' r, qcUnloadService fuel dlsym name st = some (st', r) ∧
        Ledger dlsym st' items' handlesOpened := by
    refine ⟨st, items, 1, ?_, h⟩
    rw [qcUnloadService, hnone]
    rfl
  cases name with
  | none => exact stays rfl
  | some name =>
    have hlookup : lookupQhgpuSitem fuel st (some name) =
        some ((items.find? (hasName name)).map Prod.fst) := h.contents.lookup hfuel
    cases hfind : items.find? (hasName name) with
    | none =>
      rw [hfind] at hlookup
      exact stays hlookup
    | some e =>
      obtain ⟨hname, pre, post, rfl, hpre⟩ := List.find?_eq_some_iff_append.mp hfind
      obtain ⟨st', hunload, h', hrefs, hevents⟩ := h.contents.unload_named h.own hfuel (by
        intro e' he'
        rw [hasName_eq_of_hasName hname]
        simpa using hpre e' he')
      have hsub (e' : Entry) (he' : e' ∈ pre ++ post) : e' ∈ pre ++ e :: post := by
        rw [List.mem_append] at he' ⊢
        exact he'.imp_right (List.mem_cons_of_mem e)
      rw [hfind] at hlookup
      refine ⟨st', pre ++ post, 0, ?_, h', h.own.mono hsub, fun e' he' ↦ h.loaded e' (hsub e' he'),
        ?_, ?_, ?_⟩
      · rw [qcUnloadService, hlookup]
        exact hunload
      · refine List.Perm.trans ?_ h.account
        rw [hevents, closed_append, closed_unloadEvents, handles_append, handles_append,
          List.append_assoc, List.append_assoc]
        refine List.Perm.append_left _ ?_
        rw [handles_cons, List.append_assoc, ← List.append_assoc]
        exact List.perm_append_comm
      · intro lh
        rw [hrefs, refsWithout_apply, h.refs lh, handles_append, handles_append, handles_cons,
          List.count_append, List.count_append, List.count_append]
        omega
      · rw [hevents, closed_append, finited_append]
        exact h.finited.append (finited_unloadEvents dlsym e)

/-- All services are unloaded. -/
theorem Ledger.unloadAll (h : Ledger dlsym st items handlesOpened) (hfuel : items.length < fuel) :
    ∃ st', qcUnloadAllServices fuel dlsym st = some (st', 0) ∧
      Ledger dlsym st' [] handlesOpened := by
  obtain ⟨st', hunload, h', hrefs, hevents⟩ := h.contents.unloadFrom h.own hfuel hfuel
  refine ⟨st', ?_, h', nofun, nofun, ?_, ?_, ?_⟩
  · rw [qcUnloadAllServices, h.contents.getNext_services]
    simp only [Option.bind_eq_bind, Option.bind_some, h.contents.getNext_linkTo]
    exact hunload
  · rw [hevents, closed_append, closed_flatMap]
    change (closed st.events ++ handles items).Perm handlesOpened
    exact List.perm_append_comm.trans h.account
  · intro lh
    rw [hrefs, refsAfter_apply, h.refs lh, Nat.sub_self]
    rfl
  · rw [hevents, closed_append, finited_append]
    exact h.finited.append (finited_flatMap dlsym items)

/-! ### Every sequence of calls -/

private theorem opened_append (libs libs' : List Library) :
    opened (libs ++ libs') = opened libs ++ opened libs' := List.filterMap_append

private theorem Ledger.perform (h : Ledger dlsym st items handlesOpened) (op : Op)
    (hown : ∀ lib ∈ op.libs, lib.Own dlsym) (hfuel : handlesOpened.length < fuel) :
    ∃ st' items', op.perform fuel dlsym st = some st' ∧
      Ledger dlsym st' items' (handlesOpened ++ opened op.libs) := by
  have hitems := Nat.lt_of_le_of_lt h.length_le hfuel
  cases op with
  | loadService lib =>
    obtain ⟨st', items', r, hload, h'⟩ := h.loadFrom [lib] hown 0
    refine ⟨st', items', ?_, h'⟩
    simp only [Registry.loadFrom, Option.bind_eq_bind, Option.bind_eq_some_iff,
      Option.some.injEq] at hload
    obtain ⟨⟨st₁, r₁⟩, hload, heq⟩ := hload
    obtain ⟨rfl, -⟩ := Prod.mk.inj heq
    rw [Op.perform, hload]
    rfl
  | loadAllServices libs =>
    obtain ⟨st', items', r, hload, h'⟩ := h.loadFrom libs hown 0
    refine ⟨st', items', ?_, h'⟩
    rw [Op.perform, qcLoadAllServices, hload]
    rfl
  | unloadService name =>
    obtain ⟨st', items', r, hunload, h'⟩ := h.unload hitems name
    refine ⟨st', items', ?_, ?_⟩
    · rw [Op.perform, hunload]
      rfl
    · have hnone : opened [] = [] := rfl
      simp only [Op.libs, hnone, List.append_nil]
      exact h'
  | unloadAllServices =>
    obtain ⟨st', hunload, h'⟩ := h.unloadAll hitems
    refine ⟨st', [], ?_, ?_⟩
    · rw [Op.perform, hunload]
      rfl
    · have hnone : opened [] = [] := rfl
      simp only [Op.libs, hnone, List.append_nil]
      exact h'

private theorem Ledger.run (h : Ledger dlsym st items handlesOpened) (ops : List Op)
    (hown : ∀ lib ∈ ops.flatMap Op.libs, lib.Own dlsym)
    (hfuel : (handlesOpened ++ opened (ops.flatMap Op.libs)).length < fuel) :
    ∃ st' items', StepRun.run (Op.perform fuel dlsym) st ops = some st' ∧
      Ledger dlsym st' items' (handlesOpened ++ opened (ops.flatMap Op.libs)) := by
  induction ops generalizing st items handlesOpened with
  | nil =>
    refine ⟨st, items, rfl, ?_⟩
    rw [List.flatMap_nil, opened, List.filterMap_nil, List.append_nil]
    exact h
  | cons op ops ih =>
    rw [List.flatMap_cons, opened_append, ← List.append_assoc] at hfuel ⊢
    rw [List.flatMap_cons] at hown
    have hlen : handlesOpened.length < fuel := by
      rw [List.length_append, List.length_append] at hfuel
      omega
    obtain ⟨st₁, items₁, hfirst, h₁⟩ := h.perform op
      (fun lib hl ↦ hown lib (List.mem_append_left _ hl)) hlen
    obtain ⟨st₂, items₂, hrest, h₂⟩ := ih h₁
      (fun lib hl ↦ hown lib (List.mem_append_right _ hl)) hfuel
    exact ⟨st₂, items₂, StepRun.run_cons_iff.mpr ⟨st₁, hfirst, hrest⟩, h₂⟩

end QHGPU.Connector.Registry
