import QHGPU.Connector.Registry

/-!
# Unloading all services

`qc_unload_all_services` on a list that calls of `qc_register_service` have made. The item that
the walk stands at is always the first of the list, so that it is the first with its name.
-/

namespace QHGPU.Connector.Registry

variable {st : State} {items pre post : List Entry} {e : Entry} {fuel turns : Nat}
  {dlsym : Handle → Option Finit}

/-! ### Registered items -/

/-- A call of `qc_register_service`, with what `malloc` returns. -/
structure Call where
  s : Option QhgpuService
  libhandle : Option Handle
  malloc : Option Addr

/-- The state after the call. The library that makes it has just been opened. -/
def Call.perform (st : State) (c : Call) : Option State :=
  (qcRegisterService c.s c.libhandle c.malloc (c.libhandle.elim st (dlopen · st))).map Prod.fst

/-- The items after the call. -/
def Call.enter (items : List Entry) (c : Call) : List Entry :=
  match c.s, c.malloc with
  | some s, some i => if i ∈ items.map Prod.fst then items else items ++ [(i, ⟨s, c.libhandle⟩)]
  | _, _ => items

/-- The items that the calls register, from an empty list. -/
def registered (calls : List Call) : List Entry := calls.foldl Call.enter []

/-- One more library is open. -/
theorem Contents.dlopen (h : Contents st items) (lh : Handle) :
    Contents (dlopen lh st) items := by
  refine ⟨h.ring, h.item, h.live, ?_⟩
  intro lh'
  show _ ≤ Function.update st.refs lh (st.refs lh + 1) lh'
  rw [Function.update_apply]
  split
  · next heq =>
    rw [heq]
    exact Nat.le_succ_of_le (h.usable lh)
  · exact h.usable lh'

/-- A call of `qc_register_service` is made on the list as it stands. -/
theorem Contents.perform (h : Contents st items) (hevents : st.events = []) (c : Call) :
    ∃ st', c.perform st = some st' ∧ Contents st' (c.enter items) ∧ st'.events = [] := by
  rcases c with ⟨s, libhandle, malloc⟩
  obtain ⟨st₁, hst₁, h₁, hevents₁, hlists, hopen⟩ : ∃ st₁,
      libhandle.elim st (Registry.dlopen · st) = st₁ ∧ Contents st₁ items ∧ st₁.events = [] ∧
        st₁.lists = st.lists ∧
        ∀ lh, libhandle = some lh → (handles items).count lh < st₁.refs lh := by
    cases libhandle with
    | none => exact ⟨st, rfl, h, hevents, rfl, fun lh hlh ↦ by cases hlh⟩
    | some lh =>
      refine ⟨_, rfl, h.dlopen lh, hevents, rfl, ?_⟩
      intro lh' hlh'
      obtain rfl := Option.some.inj hlh'
      show _ < Function.update st.refs lh (st.refs lh + 1) lh
      rw [Function.update_self]
      exact Nat.lt_succ_of_le (h.usable lh)
  unfold Call.perform
  dsimp only
  rw [hst₁]
  rcases s with _ | s
  · exact ⟨st₁, rfl, h₁, hevents₁⟩
  rcases malloc with _ | i
  · exact ⟨st₁, rfl, h₁, hevents₁⟩
  have henter : Call.enter items ⟨some s, libhandle, some i⟩ =
      if i ∈ items.map Prod.fst then items else items ++ [(i, ⟨s, libhandle⟩)] := rfl
  by_cases hmem : i ∈ items.map Prod.fst
  · obtain ⟨e, he, rfl⟩ := List.mem_map.mp hmem
    have hlive : st₁.lists.live (.list e.1) = true :=
      h₁.ring.live _ (List.mem_cons_of_mem _ (List.mem_map_of_mem he))
    refine ⟨st₁, ?_, ?_, hevents₁⟩
    · simp [qcRegisterService, hlive]
    · rw [henter, if_pos hmem]
      exact h₁
  · have hfree : st₁.lists.live (.list i) = false := by
      apply Bool.eq_false_iff.mpr
      intro hlive
      obtain ⟨e, he, rfl⟩ := h₁.live i hlive
      exact hmem (List.mem_map_of_mem he)
    obtain ⟨st', hregister, hst', hsame⟩ := h₁.register (s := s) hfree hopen
    refine ⟨st', ?_, ?_, hsame.2.trans hevents₁⟩
    · rw [hregister]
      rfl
    · rw [henter, if_neg hmem]
      exact hst'

private theorem contents_registered (calls : List Call) :
    ∃ st, StepRun.run Call.perform .start calls = some st ∧ Contents st (registered calls) ∧
      st.events = [] := by
  have hruns (items : List Entry) (st : State) (h : Contents st items) (hevents : st.events = []) :
      ∃ st', StepRun.run Call.perform st calls = some st' ∧
        Contents st' (calls.foldl Call.enter items) ∧ st'.events = [] := by
    induction calls generalizing items st with
    | nil => exact ⟨st, rfl, h, hevents⟩
    | cons c calls ih =>
      obtain ⟨st₁, hperform, h₁, hevents₁⟩ := h.perform hevents c
      obtain ⟨st₂, hrun, h₂⟩ := ih _ st₁ h₁ hevents₁
      exact ⟨st₂, StepRun.run_cons_iff.mpr ⟨st₁, hperform, hrun⟩, h₂⟩
  exact hruns [] .start contents_start rfl

/-! ### One item -/

/-- The libraries that have a `finit` unregister the name of their service with it, and return
the result. -/
def UnregistersOwn (dlsym : Handle → Option Finit) (items : List Entry) : Prop :=
  ∀ e ∈ items, ∀ lh, e.2.libhandle = some lh → ∀ finit, dlsym lh = some finit →
    ∀ unreg st, finit lh unreg st = unreg (some e.2.s.name) st

/-- The calls that unloading an item makes. -/
def unloadEvents (dlsym : Handle → Option Finit) (e : Entry) : List Event :=
  match e.2.libhandle with
  | none => []
  | some lh => if (dlsym lh).isSome then [.finit lh, .dlclose lh] else [.dlclose lh]

/-- A call into a library is made. -/
theorem Contents.log (h : Contents st items) (evs : List Event) :
    Contents { st with events := st.events ++ evs } items := ⟨h.ring, h.item, h.live, h.usable⟩

/-- A library is closed that more calls of `dlopen` have opened than there are items of it. -/
theorem Contents.close (h : Contents st items) {lh : Handle}
    (hopen : (handles items).count lh < st.refs lh) :
    ∃ st', dlclose lh st = some st' ∧ Contents st' items ∧
      st'.refs = Function.update st.refs lh (st.refs lh - 1) ∧
      st'.events = st.events ++ [.dlclose lh] := by
  have hpos : st.isOpen lh = true := decide_eq_true (Nat.lt_of_le_of_lt (Nat.zero_le _) hopen)
  refine ⟨_, if_pos hpos, ⟨h.ring, h.item, h.live, ?_⟩, rfl, rfl⟩
  intro lh'
  show _ ≤ Function.update st.refs lh (st.refs lh - 1) lh'
  rw [Function.update_apply]
  split
  · next heq =>
    rw [heq]
    exact Nat.le_sub_one_of_lt hopen
  · exact h.usable lh'

/-- The references that are left when an item is unloaded. -/
def refsWithout (refs : Handle → Nat) (e : Entry) : Handle → Nat :=
  e.2.libhandle.elim refs fun lh ↦ Function.update refs lh (refs lh - 1)

/-- One reference less for the library of the item. -/
theorem refsWithout_apply (refs : Handle → Nat) (e : Entry) (lh : Handle) :
    refsWithout refs e lh = refs lh - e.2.libhandle.toList.count lh := by
  unfold refsWithout
  cases e.2.libhandle with
  | none => rfl
  | some lh' =>
    rw [Option.elim_some, Option.toList_some, List.count_singleton, Function.update_apply]
    by_cases heq : lh = lh'
    · simp [heq]
    · simp [heq, Ne.symm heq]

/-- Unloading an item that is the first with its name. -/
theorem Contents.unload_named (h : Contents st (pre ++ e :: post))
    (hown : UnregistersOwn dlsym (pre ++ e :: post))
    (hfuel : (pre ++ e :: post).length < fuel) (hpre : ∀ e' ∈ pre, ¬hasName e.2.s.name e') :
    ∃ st', unloadService fuel dlsym st (some e.1) = some (st', 0) ∧ Contents st' (pre ++ post) ∧
      st'.refs = refsWithout st.refs e ∧ st'.events = st.events ++ unloadEvents dlsym e := by
  have hmem : e ∈ pre ++ e :: post := List.mem_append_right pre List.mem_cons_self
  have hitem := h.getItem hmem
  cases hlh : e.2.libhandle with
  | none =>
    obtain ⟨st₁, hunreg, h₁, hrefs₁, hevents₁⟩ := h.unregister
    refine ⟨st₁, ?_, h₁, ?_, ?_⟩
    · simp [unloadService, hitem, hlh, hunreg]
    · simp [refsWithout, hlh, hrefs₁]
    · simp [unloadEvents, hlh, hevents₁]
  | some lh =>
    have hopen := h.isOpen hmem hlh
    have hmore : (handles (pre ++ post)).count lh < st.refs lh := by
      have hall := h.usable lh
      rw [handles_append, handles_cons, List.count_append, List.count_append, hlh,
        Option.toList_some, List.count_singleton_self] at hall
      rw [handles_append, List.count_append]
      omega
    cases hdlsym : dlsym lh with
    | none =>
      obtain ⟨st₁, hunreg, h₁, hrefs₁, hevents₁⟩ := h.unregister
      obtain ⟨st₂, hclose, h₂, hrefs₂, hevents₂⟩ := h₁.close (hrefs₁ ▸ hmore)
      refine ⟨st₂, ?_, h₂, ?_, ?_⟩
      · simp [unloadService, hitem, hlh, hopen, hdlsym, hunreg, hclose]
      · simp [refsWithout, hlh, hrefs₂, hrefs₁]
      · simp [unloadEvents, hlh, hdlsym, hevents₂, hevents₁]
    | some finit =>
      have hfinit := hown e hmem lh hlh finit hdlsym
      -- the library's own `finit` takes the first item with its name off
      obtain ⟨st₁, hunreg, h₁, hrefs₁, hevents₁⟩ :=
        (h.log [.finit lh]).unregister_name e.2.s.name hfuel
      have hany : (pre ++ e :: post).any (hasName e.2.s.name) = true :=
        List.any_eq_true.mpr ⟨e, hmem, hasName_self e⟩
      rw [List.eraseP_append_right _ hpre, List.eraseP_cons_of_pos (hasName_self e)] at h₁
      rw [hany, if_pos rfl] at hunreg
      obtain ⟨st₂, hclose, h₂, hrefs₂, hevents₂⟩ := h₁.close (hrefs₁ ▸ hmore)
      refine ⟨st₂, ?_, h₂, ?_, ?_⟩
      · simp [unloadService, callFinit, hitem, hlh, hopen, hdlsym, hfinit, hunreg, hclose]
      · simp [refsWithout, hlh, hrefs₂, hrefs₁]
      · simp [unloadEvents, hlh, hdlsym, hevents₂, hevents₁]

/-! ### All items -/

/-- The link of the first item leads to the second. -/
theorem Contents.getNext_linkTo (h : Contents st items) :
    st.lists.getNext (linkTo items) = some (linkTo items.tail) := by
  cases items with
  | nil => exact h.getNext_services
  | cons e items => exact Contents.getNext (show Contents st ([] ++ e :: items) from h)

/-- The references that are left when all items are unloaded. -/
def refsAfter (refs : Handle → Nat) (items : List Entry) : Handle → Nat :=
  items.foldl refsWithout refs

/-- One reference less for each item of the library. -/
theorem refsAfter_apply (refs : Handle → Nat) (items : List Entry) (lh : Handle) :
    refsAfter refs items lh = refs lh - (handles items).count lh := by
  induction items generalizing refs with
  | nil => rfl
  | cons e items ih =>
    rw [refsAfter, List.foldl_cons, ← refsAfter, ih, refsWithout_apply, handles_cons,
      List.count_append, Nat.sub_sub]

/-- At each turn the walk stands at the first item, and the saved node is the second. -/
theorem Contents.unloadFrom (h : Contents st items) (hown : UnregistersOwn dlsym items)
    (hfuel : items.length < fuel) (hturns : items.length < turns) :
    ∃ st', unloadFrom fuel dlsym turns st (linkTo items) (linkTo items.tail) 0 = some (st', 0) ∧
      Contents st' [] ∧ st'.refs = refsAfter st.refs items ∧
      st'.events = st.events ++ items.flatMap (unloadEvents dlsym) := by
  induction turns generalizing st items with
  | zero => exact absurd hturns (Nat.not_lt_zero _)
  | succ turns ih =>
    cases items with
    | nil => exact ⟨st, rfl, h, rfl, (List.append_nil _).symm⟩
    | cons e items =>
      obtain ⟨st₁, hunload, h₁, hrefs₁, hevents₁⟩ :=
        Contents.unload_named (show Contents st ([] ++ e :: items) from h) hown hfuel (by simp)
      rw [List.nil_append] at h₁
      have hown₁ : UnregistersOwn dlsym items := fun e' he' ↦ hown e' (List.mem_cons_of_mem e he')
      have hnext := h₁.getNext_linkTo
      obtain ⟨st₂, hwalk, h₂, hrefs₂, hevents₂⟩ := ih h₁ hown₁ (Nat.lt_of_succ_lt hfuel)
        (Nat.lt_of_succ_lt_succ hturns)
      refine ⟨st₂, ?_, h₂, ?_, ?_⟩
      · simp [Registry.unloadFrom, listEntry, hunload, hnext, hwalk]
      · rw [hrefs₂, hrefs₁, refsAfter, refsAfter, List.foldl_cons]
      · rw [hevents₂, hevents₁, List.append_assoc, List.flatMap_cons]

private theorem count_dlclose (dlsym : Handle → Option Finit) (items : List Entry) (lh : Handle) :
    (items.flatMap (unloadEvents dlsym)).count (.dlclose lh) = (handles items).count lh := by
  rw [handles, List.count_flatMap, List.count_flatMap]
  congr 1
  apply List.map_congr_left
  intro e _
  cases hlh : e.2.libhandle with
  | none => simp [unloadEvents, hlh]
  | some lh' =>
    by_cases hfinit : (dlsym lh').isSome
    · simp [unloadEvents, hlh, hfinit, List.count_cons]
    · simp [unloadEvents, hlh, hfinit, List.count_cons]

private theorem count_finit_le (dlsym : Handle → Option Finit) (items : List Entry) (lh : Handle) :
    (items.flatMap (unloadEvents dlsym)).count (.finit lh) ≤ (handles items).count lh := by
  induction items with
  | nil => exact Nat.le_refl 0
  | cons e items ih =>
    have hfirst : (unloadEvents dlsym e).count (.finit lh) ≤ e.2.libhandle.toList.count lh := by
      cases hlh : e.2.libhandle with
      | none => simp [unloadEvents, hlh]
      | some lh' =>
        by_cases hfinit : (dlsym lh').isSome
        · simp [unloadEvents, hlh, hfinit, List.count_cons]
        · simp [unloadEvents, hlh, hfinit]
    rw [List.flatMap_cons, List.count_append, handles, List.flatMap_cons, List.count_append]
    exact Nat.add_le_add hfirst ih

/-- Whatever services are registered: no step follows a bad pointer, every `finit` runs at most
once, every library is closed once, the result is 0 and no item is left. -/
theorem qcUnloadAllServices_unloads {calls : List Call}
    (hone : (handles (registered calls)).Nodup)
    (hown : UnregistersOwn dlsym (registered calls)) (hfuel : (registered calls).length < fuel) :
    ∃ st st', StepRun.run Call.perform .start calls = some st ∧
      Contents st (registered calls) ∧
      qcUnloadAllServices fuel dlsym st = some (st', 0) ∧ Contents st' [] ∧
      (∀ lh, st'.events.count (.finit lh) ≤ 1) ∧
      ∀ lh, st'.events.count (.dlclose lh) = if lh ∈ handles (registered calls) then 1 else 0 := by
  obtain ⟨st, hrun, h, hevents⟩ := contents_registered calls
  obtain ⟨st', hunload, h', -, hevents'⟩ := h.unloadFrom hown hfuel hfuel
  rw [hevents, List.nil_append] at hevents'
  refine ⟨st, st', hrun, h, ?_, h', ?_, ?_⟩
  · rw [qcUnloadAllServices, h.getNext_services]
    simp only [Option.bind_eq_bind, Option.bind_some, h.getNext_linkTo]
    exact hunload
  · intro lh
    rw [hevents']
    exact (count_finit_le dlsym _ lh).trans (List.nodup_iff_count_le_one.mp hone lh)
  · intro lh
    rw [hevents', count_dlclose]
    split
    · next hmem => exact List.count_eq_one_of_mem hone hmem
    · next hmem => exact List.count_eq_zero.mpr hmem

/-- Two services of one name, the second without a library. -/
theorem qcUnloadAllServices_unloads_twice :
    ∃ st st', StepRun.run Call.perform .start
        [⟨some ⟨[98], 1, 0, 0⟩, some 7, some 0⟩, ⟨some ⟨[98], 2, 0, 0⟩, none, some 1⟩] = some st ∧
      Contents st [(0, ⟨⟨[98], 1, 0, 0⟩, some 7⟩), (1, ⟨⟨[98], 2, 0, 0⟩, none⟩)] ∧
      qcUnloadAllServices 3 (fun _ ↦ some fun _ unreg st ↦ unreg (some [98]) st) st =
        some (st', 0) ∧ Contents st' [] ∧ (∀ lh, st'.events.count (.finit lh) ≤ 1) ∧
      ∀ lh, st'.events.count (.dlclose lh) = if lh ∈ [7] then 1 else 0 := by
  apply qcUnloadAllServices_unloads
  · decide
  · intro e he lh _ finit hfinit unreg st
    obtain rfl := Option.some.inj hfinit
    rcases List.mem_cons.mp he with rfl | he
    · rfl
    · rw [List.mem_singleton.mp he]
  · decide

end QHGPU.Connector.Registry
