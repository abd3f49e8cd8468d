import QHGPU.Connector.Memory
import QHGPU.Connector.Passes

/-!
# Memory holds the lists

The lists of `QHGPU.Connector.State` in memory: each is a ring of the nodes of its items,
`addr` telling where an item is. Each operation on items in memory does to the rings what the
operation on lists does to the lists.
-/

namespace QHGPU.Connector.Memory

open LinkedRing

/-- The nodes of `all_reqs` for items at the addresses `addr`. -/
def glistNodes (addr : Nat → Addr) (items : List Nat) : List Node :=
  items.map fun i ↦ .glist (addr i)

/-- The nodes of a stage list for items at the addresses `addr`. -/
def listNodes (addr : Nat → Addr) (items : List Nat) : List Node :=
  items.map fun i ↦ .list (addr i)

/-- Every list is a ring, and every record is in its item. -/
structure Holds (addr : Nat → Addr) (m : State) (s : Connector.State) : Prop where
  inj : ∀ i ∈ s.allReqs, ∀ j ∈ s.allReqs, addr i = addr j → i = j
  all : Ring m.lists .allReqs (glistNodes addr s.allReqs)
  stage : ∀ g, Ring m.lists (.reqs g) (listNodes addr (s.stage g))
  sr : ∀ i ∈ s.allReqs, m.sr (addr i) = s.sr i
  both : ∀ a, m.lists.live (.glist a) = m.lists.live (.list a)

variable {d : Daemon} {addr : Nat → Addr} {m : State} {s t : Connector.State} {i : Nat}
  {g g' k : Stage}

/-! ### Which nodes are where -/

/-- The nodes of two lists in a row. -/
@[simp] theorem listNodes_append (l l' : List Nat) :
    listNodes addr (l ++ l') = listNodes addr l ++ listNodes addr l' := List.map_append

/-- The first item has the first node. -/
@[simp] theorem listNodes_cons (i : Nat) (l : List Nat) :
    listNodes addr (i :: l) = .list (addr i) :: listNodes addr l := rfl

/-- The nodes of two lists in a row. -/
@[simp] theorem glistNodes_append (l l' : List Nat) :
    glistNodes addr (l ++ l') = glistNodes addr l ++ glistNodes addr l' := List.map_append

/-- The first item has the first node. -/
@[simp] theorem glistNodes_cons (i : Nat) (l : List Nat) :
    glistNodes addr (i :: l) = .glist (addr i) :: glistNodes addr l := rfl

/-- A node of a stage ring is its head or in an item of the list. -/
theorem mem_stage_ring {x : Node} {l : List Nat} (hx : x ∈ .reqs g :: listNodes addr l) :
    x = .reqs g ∨ ∃ j ∈ l, x = .list (addr j) := by
  rcases List.mem_cons.mp hx with rfl | hx
  · exact Or.inl rfl
  · obtain ⟨j, hj, rfl⟩ := List.mem_map.mp hx
    exact Or.inr ⟨j, hj, rfl⟩

/-- A node of the ring of all items is its head or in an item. -/
theorem mem_all_ring {x : Node} {l : List Nat} (hx : x ∈ .allReqs :: glistNodes addr l) :
    x = .allReqs ∨ ∃ j ∈ l, x = .glist (addr j) := by
  rcases List.mem_cons.mp hx with rfl | hx
  · exact Or.inl rfl
  · obtain ⟨j, hj, rfl⟩ := List.mem_map.mp hx
    exact Or.inr ⟨j, hj, rfl⟩

/-- Items on a stage list are in `all_reqs`. -/
theorem mem_all_of_stage (hs : StageInv d s) (hi : i ∈ s.stage g) : i ∈ s.allReqs :=
  (hs.mem_all i).mpr ⟨g, hi⟩

/-- The ring of an item's own list is the only stage ring with its node. -/
theorem Holds.list_not_mem (hm : Holds addr m s) (hs : StageInv d s) (hi : i ∈ s.allReqs)
    (hk : i ∉ s.stage k) : Node.list (addr i) ∉ .reqs k :: listNodes addr (s.stage k) := by
  intro hx
  rcases mem_stage_ring hx with heq | ⟨j, hj, heq⟩
  · cases heq
  · have haddr : addr i = addr j := Node.list.inj heq
    rw [hm.inj i hi j (mem_all_of_stage hs hj) haddr] at hk
    exact hk hj

/-- Rings of different stages share no node. -/
theorem Holds.disjoint (hm : Holds addr m s) (hs : StageInv d s) (hne : g ≠ k) {x : Node}
    (hx : x ∈ .reqs g :: listNodes addr (s.stage g)) :
    x ∉ .reqs k :: listNodes addr (s.stage k) := by
  rcases mem_stage_ring hx with rfl | ⟨j, hj, rfl⟩
  · intro hx'
    rcases mem_stage_ring hx' with heq | ⟨_, _, heq⟩
    · exact hne (Node.reqs.inj heq)
    · cases heq
  · exact hm.list_not_mem hs (mem_all_of_stage hs hj) (hs.not_mem_of_ne hj k hne)

/-- The ring of all items shares no node with a stage ring. -/
theorem all_disjoint {x : Node} {l l' : List Nat} (hx : x ∈ .allReqs :: glistNodes addr l) :
    x ∉ .reqs g :: listNodes addr l' := by
  intro hx'
  rcases mem_all_ring hx with rfl | ⟨j, _, rfl⟩ <;>
    rcases mem_stage_ring hx' with heq | ⟨_, _, heq⟩ <;> cases heq

/-- An item on a stage list is allocated. -/
theorem Holds.live (hm : Holds addr m s) (hi : i ∈ s.stage g) :
    m.lists.live (.list (addr i)) = true :=
  (hm.stage g).live _ (List.mem_cons_of_mem _ (List.mem_map_of_mem hi))

/-- An item of a list without duplicates splits it. -/
theorem split_of_mem {l : List Nat} (hl : l.Nodup) (hi : i ∈ l) :
    ∃ pre post, l = pre ++ i :: post ∧ l.erase i = pre ++ post := by
  obtain ⟨pre, post, rfl⟩ := List.append_of_mem hi
  refine ⟨pre, post, rfl, ?_⟩
  have hnot : i ∉ pre := by
    intro hpre
    exact (List.nodup_append.mp hl).2.2 i hpre i List.mem_cons_self rfl
  rw [List.erase_append_right _ hnot, List.erase_cons_head]

/-! ### Moving an item -/

/-- `list_del` takes an item's node off its stage ring, and changes no other ring. -/
theorem Holds.unlink (hm : Holds addr m s) (hs : StageInv d s) (hi : i ∈ s.stage g) :
    ∃ h, listDel m.lists (some (.list (addr i))) = some h ∧ h.live = m.lists.live ∧
      Ring h .allReqs (glistNodes addr s.allReqs) ∧
      ∀ k, Ring h (.reqs k) (listNodes addr ((s.stage k).erase i)) := by
  obtain ⟨pre, post, hsplit, herase⟩ := split_of_mem (hs.nodup g) hi
  have hring := hm.stage g
  rw [hsplit, listNodes_append, listNodes_cons] at hring
  obtain ⟨h, hdel, hlive, hring', hframe⟩ := hring.del
  rw [← listNodes_cons, ← listNodes_append, ← hsplit] at hframe
  refine ⟨h, hdel, hlive, hm.all.frame hframe fun x hx ↦ all_disjoint hx, ?_⟩
  intro k
  by_cases hk : k = g
  · subst hk
    rw [herase, listNodes_append]
    exact hring'
  · rw [List.erase_of_not_mem (hs.not_mem_of_ne hi k (Ne.symm hk))]
    exact (hm.stage k).frame hframe fun x hx ↦ hm.disjoint hs hk hx

/-- `list_add_tail` puts a node that is on no ring at the end of a stage ring. -/
theorem addTail_rings {h : Heap Node} {a : Addr} {all : List Node} {on : Stage → List Node}
    (hall : Ring h .allReqs all) (hon : ∀ k, Ring h (.reqs k) (on k))
    (hlive : h.live (.list a) = true) (hnotall : Node.list a ∉ .allReqs :: all)
    (hnot : ∀ k, Node.list a ∉ .reqs k :: on k)
    (hdisj : ∀ x ∈ .allReqs :: all, x ∉ .reqs g :: on g)
    (hdisj' : ∀ k, k ≠ g → ∀ x ∈ .reqs k :: on k, x ∉ .reqs g :: on g) :
    ∃ h', listAddTail h (some (.list a)) (some (.reqs g)) = some h' ∧ h'.live = h.live ∧
      Ring h' .allReqs all ∧
      ∀ k, Ring h' (.reqs k) (on k ++ if k = g then [.list a] else []) := by
  obtain ⟨h', hadd, hlive', hring, hframe⟩ := (hon g).addTail hlive (hnot g)
  refine ⟨h', hadd, hlive', hall.frame hframe ?_, ?_⟩
  · rintro x hx (rfl | hxg)
    · exact hnotall hx
    · exact hdisj x hx hxg
  · intro k
    by_cases hk : k = g
    · subst hk
      rw [if_pos rfl]
      exact hring
    · rw [if_neg hk, List.append_nil]
      refine (hon k).frame hframe ?_
      rintro x hx (rfl | hxg)
      · exact hnot k hx
      · exact hdisj' k hk x hx hxg

/-- A shorter list has no further nodes. -/
theorem mem_ring_of_sublist {l l' : List Nat} (hl : l.Sublist l') {x : Node}
    (hx : x ∈ .reqs g :: listNodes addr l) : x ∈ .reqs g :: listNodes addr l' :=
  ((hl.map _).cons_cons _).subset hx

private theorem State.getSr_live (hlive : m.lists.live (.list i) = true) :
    m.getSr i = some (m.sr i) := if_pos hlive

private theorem State.setSr_live (hlive : m.lists.live (.list i) = true)
    (sr : QhgpuServiceRequest) :
    m.setSr i sr = some { m with sr := Function.update m.sr i sr } := if_pos hlive

/-- `list_del` and `list_add_tail` move an item to the end of another stage list. -/
theorem Holds.moveTail (hm : Holds addr m s) (hs : StageInv d s) (hi : i ∈ s.stage g)
    (g' : Stage) : ∃ h, listMoveTail m.lists (addr i) g' = some h ∧ h.live = m.lists.live ∧
      Ring h .allReqs (glistNodes addr s.allReqs) ∧ ∀ k, Ring h (.reqs k)
        (listNodes addr ((s.stage k).erase i ++ if k = g' then [i] else [])) := by
  obtain ⟨h, hdel, hlive, hall, hstage⟩ := hm.unlink hs hi
  have hin : i ∈ s.allReqs := mem_all_of_stage hs hi
  have hnot (k : Stage) : Node.list (addr i) ∉ .reqs k :: listNodes addr ((s.stage k).erase i) := by
    by_cases hk : i ∈ s.stage k
    · intro hx
      rcases mem_stage_ring hx with heq | ⟨j, hj, heq⟩
      · cases heq
      · have hji : j ≠ i ∧ j ∈ s.stage k := (hs.nodup k).mem_erase_iff.mp hj
        exact hji.1 (hm.inj j (mem_all_of_stage hs hji.2) i hin (Node.list.inj heq).symm)
    · intro hx
      exact hm.list_not_mem hs hin hk (mem_ring_of_sublist List.erase_sublist hx)
  have hnotall : Node.list (addr i) ∉ .allReqs :: glistNodes addr s.allReqs := by
    intro hx
    rcases mem_all_ring hx with heq | ⟨_, _, heq⟩ <;> cases heq
  have hdisj (k : Stage) (hk : k ≠ g') (x : Node)
      (hx : x ∈ .reqs k :: listNodes addr ((s.stage k).erase i)) :
      x ∉ .reqs g' :: listNodes addr ((s.stage g').erase i) := by
    intro hx'
    exact hm.disjoint hs hk (mem_ring_of_sublist List.erase_sublist hx)
      (mem_ring_of_sublist List.erase_sublist hx')
  obtain ⟨h', hadd, hlive', hall', hstage'⟩ := addTail_rings (g := g') hall hstage
    ((congrFun hlive _).trans (hm.live hi)) hnotall hnot (fun x hx ↦ all_disjoint hx) hdisj
  refine ⟨h', ?_, hlive'.trans hlive, hall', ?_⟩
  · rw [listMoveTail, hdel, Option.bind_eq_bind, Option.bind_some, hadd]
  · intro k
    have hk := hstage' k
    rw [listNodes_append]
    split at hk
    · next heq =>
      rw [if_pos heq]
      exact hk
    · next hne =>
      rw [if_neg hne]
      exact hk

/-- Storing the record and moving the item brings memory to the state `t` whose lists and
records are changed so. -/
theorem Holds.move (hm : Holds addr m s) (hs : StageInv d s) (hi : i ∈ s.stage g) (g' : Stage)
    (sr : QhgpuServiceRequest) (hall : t.allReqs = s.allReqs)
    (hstage : ∀ k, t.stage k = (s.stage k).erase i ++ if k = g' then [i] else [])
    (hsr : t.sr = Function.update s.sr i sr) :
    ∃ m', (m.setSr (addr i) sr).bind (·.moveTail (addr i) g') = some m' ∧ Holds addr m' t ∧
      m'.written = m.written := by
  have hlive := hm.live hi
  have hin : i ∈ s.allReqs := mem_all_of_stage hs hi
  obtain ⟨h, hmove, hlive', hring, hrings⟩ := hm.moveTail hs hi g'
  refine ⟨{ m with lists := h, sr := Function.update m.sr (addr i) sr }, ?_, ?_, rfl⟩
  · rw [State.setSr_live hlive, Option.bind_some, State.moveTail, hmove]
    rfl
  · constructor
    · rw [hall]
      exact hm.inj
    · rw [hall]
      exact hring
    · intro k
      rw [hstage]
      exact hrings k
    · intro j hj
      rw [hall] at hj
      rw [hsr]
      by_cases hji : j = i
      · subst hji
        simp
      · have haddr : addr j ≠ addr i := fun heq ↦ hji (hm.inj j hj i hin heq)
        simpa [Function.update_of_ne, hji, haddr] using hm.sr j hj
    · intro a
      exact ((congrFun hlive' _).trans (hm.both a)).trans (congrFun hlive' _).symm

/-- The service of an item that waits for `launch` or `post`. -/
theorem service_of_stage (hs : StageInv d s) (hi : i ∈ s.stage g) (hg : g ≠ .done) :
    ∃ service, (s.sr i).s = some service := by
  obtain ⟨kureq, _, hrec, _⟩ := hs.item g i hi
  unfold Stage.record at hrec
  cases hl : qcLookupService d.services kureq.serviceName with
  | none => cases g <;> simp [hl] at hrec hg
  | some service =>
    refine ⟨service, ?_⟩
    cases g <;> simp only [hl, reduceCtorEq, Option.some.injEq] at hrec hg <;> first
      | contradiction
      | rw [← hrec]

/-- Logging a call changes nothing in memory. -/
theorem Holds.log (hm : Holds addr m s) (ev : Event) :
    Holds addr m { s with log := s.log ++ [ev] } := ⟨hm.inj, hm.all, hm.stage, hm.sr, hm.both⟩

/-- The record of an item is read from its address. -/
theorem Holds.getSr (hm : Holds addr m s) (hs : StageInv d s) (hi : i ∈ s.stage g) :
    m.getSr (addr i) = some (s.sr i) := by
  rw [State.getSr_live (hm.live hi), hm.sr i (mem_all_of_stage hs hi)]

/-- The item has run or was posted: it is marked and goes to the end of the next stage list. -/
theorem Holds.advance (hm : Holds addr m s) (hs : StageInv d s) (hi : i ∈ s.stage g)
    (hg : g ≠ .done) (g' : Stage) (status : ReqState) (r : Int) (hall : t.allReqs = s.allReqs)
    (hstage : ∀ k, t.stage k = (s.stage k).erase i ++ if k = g' then [i] else [])
    (hsr : t.sr = Function.update s.sr i { s.sr i with state := status }) :
    ∃ m', (do
      let sr ← m.getSr (addr i)
      let _ ← sr.s
      let m ← m.setSr (addr i) { sr with state := status }
      let m ← m.moveTail (addr i) g'
      some (m, r)) = some (m', r) ∧ Holds addr m' t ∧ m'.written = m.written := by
  obtain ⟨service, hservice⟩ := service_of_stage hs hi hg
  obtain ⟨m', hmove, hm', hw⟩ := hm.move hs hi g' { s.sr i with state := status } hall hstage hsr
  obtain ⟨m₁, hset, hmove⟩ := Option.bind_eq_some_iff.mp hmove
  refine ⟨m', ?_, hm', hw⟩
  apply Option.bind_eq_some_iff.mpr ⟨_, hm.getSr hs hi, _⟩
  apply Option.bind_eq_some_iff.mpr ⟨_, hservice, _⟩
  exact Option.bind_eq_some_iff.mpr ⟨m₁, hset, Option.bind_eq_some_iff.mpr ⟨m', hmove, rfl⟩⟩

/-- A code that is not 0 leaves the item where it is. -/
theorem Holds.stay (hm : Holds addr m s) (hs : StageInv d s) (hi : i ∈ s.stage g)
    (hg : g ≠ .done) (r : Int) (ev : Event) : (do
      let sr ← m.getSr (addr i)
      let _ ← sr.s
      some (m, r)) = some (m, r) ∧ Holds addr m { s with log := s.log ++ [ev] } := by
  obtain ⟨service, hservice⟩ := service_of_stage hs hi hg
  rw [hm.getSr hs hi]
  simp only [Option.bind_eq_bind, Option.bind_some, hservice]
  exact ⟨trivial, hm.log ev⟩

/-- `qc_launch_exec` on an item of `init_reqs`. -/
theorem Holds.qcLaunchExec (hm : Holds addr m s) (hs : StageInv d s) (hi : i ∈ s.initReqs)
    (code : Int) : ∃ m', qcLaunchExec code m (addr i) =
        some (m', (Connector.qcLaunchExec code s i).2) ∧
      Holds addr m' (Connector.qcLaunchExec code s i).1 ∧ m'.written = m.written := by
  have hi' : i ∈ s.stage .init := hi
  by_cases hc : code = 0
  · subst hc
    apply hm.advance (t := (Connector.qcLaunchExec 0 s i).1) hs hi' (by decide) .running .running 0
    · rfl
    · intro k
      cases k <;> simp [Connector.qcLaunchExec, State.stage, State.unlink]
    · rfl
  · obtain ⟨heq, hlog⟩ := hm.stay hs hi' (by decide) 0 (.launch i code)
    simp only [Memory.qcLaunchExec, Connector.qcLaunchExec, if_neg hc]
    exact ⟨m, heq, hlog, rfl⟩

/-- `qc_post_exec` on an item of `running_reqs`. -/
theorem Holds.qcPostExec (hm : Holds addr m s) (hs : StageInv d s) (hi : i ∈ s.runningReqs)
    (code : Int) : ∃ m', qcPostExec code m (addr i) =
        some (m', (Connector.qcPostExec code s i).2) ∧
      Holds addr m' (Connector.qcPostExec code s i).1 ∧ m'.written = m.written := by
  have hi' : i ∈ s.stage .running := hi
  by_cases hc : code = 0
  · subst hc
    apply hm.advance (t := (Connector.qcPostExec 0 s i).1) hs hi' (by decide) .postExec .postExec 0
    · rfl
    · intro k
      cases k <;> simp [Connector.qcPostExec, State.stage, State.unlink]
    · rfl
  · obtain ⟨heq, hlog⟩ := hm.stay hs hi' (by decide) code (.post i code)
    simp only [Memory.qcPostExec, Connector.qcPostExec, if_neg hc]
    exact ⟨m, heq, hlog, rfl⟩

/-- `qc_service_done` on an item of `post_exec_reqs` frees it. -/
theorem Holds.qcServiceDone (hm : Holds addr m s) (hs : StageInv d s) (hi : i ∈ s.postExecReqs) :
    ∃ m', qcServiceDone m (addr i) = some (m', (Connector.qcServiceDone s i).2) ∧
      Holds addr m' (Connector.qcServiceDone s i).1 ∧ m'.written = m.written := by
  have hi' : i ∈ s.stage .postExec := hi
  have hin : i ∈ s.allReqs := mem_all_of_stage hs hi'
  obtain ⟨h, hdel, hlive, hall, hstage⟩ := hm.unlink hs hi'
  obtain ⟨pre, post, hsplit, herase⟩ := split_of_mem hs.all_nodup hin
  rw [hsplit, glistNodes_append, glistNodes_cons] at hall
  obtain ⟨h', hdel', hlive', hall', hframe⟩ := hall.del
  rw [← glistNodes_append, ← herase] at hall'
  rw [← glistNodes_cons, ← glistNodes_append, ← hsplit] at hframe
  have hlist : h'.live (.list (addr i)) = true := by
    rw [hlive', hlive]
    exact hm.live hi'
  have hglist : h'.live (.glist (addr i)) = true := by
    rw [hlive', hlive, hm.both]
    exact hm.live hi'
  let freed : Heap Node := { h' with
    live := Function.update (Function.update h'.live (.list (addr i)) false)
      (.glist (addr i)) false }
  have hfree : Frame (fun x ↦ x = .list (addr i) ∨ x = .glist (addr i)) h' freed := by
    intro x hx
    rw [not_or] at hx
    simp [freed, Function.update_of_ne, hx.1, hx.2]
  have hne (j : Nat) (l : List Nat) (hl : l.Nodup) (hsub : ∀ j ∈ l, j ∈ s.allReqs)
      (hj : j ∈ l.erase i) : addr j ≠ addr i := by
    intro heq
    obtain ⟨hji, hj⟩ := hl.mem_erase_iff.mp hj
    exact hji (hm.inj j (hsub j hj) i hin heq)
  refine ⟨{ m with lists := freed }, ?_, ?_, rfl⟩
  · simp [Memory.qcServiceDone, Connector.qcServiceDone, qcFreeServiceRequest, hdel, hdel', hlist,
      hglist, freed]
  · constructor
    · intro j hj k hk
      exact hm.inj j (List.mem_of_mem_erase hj) k (List.mem_of_mem_erase hk)
    · refine Ring.frame hall' hfree ?_
      intro x hx
      rcases mem_all_ring hx with rfl | ⟨j, hj, rfl⟩
      · simp
      · simpa using hne j s.allReqs hs.all_nodup (fun _ hj ↦ hj) hj
    · intro k
      have hring : Ring h' (.reqs k) (listNodes addr ((s.stage k).erase i)) := by
        refine (hstage k).frame hframe ?_
        intro x hx hx'
        exact all_disjoint hx' hx
      have hstage' : (Connector.qcServiceDone s i).1.stage k = (s.stage k).erase i := by
        cases k <;> rfl
      rw [hstage']
      refine hring.frame hfree ?_
      intro x hx
      rcases mem_stage_ring hx with rfl | ⟨j, hj, rfl⟩
      · simp
      · simpa using hne j (s.stage k) (hs.nodup k) (fun _ hj ↦ mem_all_of_stage hs hj) hj
    · intro j hj
      exact hm.sr j (List.mem_of_mem_erase hj)
    · intro a
      by_cases ha : a = addr i
      · subst ha
        simp [freed]
      · simp [freed, Function.update_of_ne, ha, hlive', hlive, hm.both a]

/-! ### A new item -/

/-- A new item is on no list: both its nodes are rings of their own. -/
structure New (addr : Nat → Addr) (m : State) (s : Connector.State) (a : Addr) : Prop where
  list : Ring m.lists (.list a) []
  glist : Ring m.lists (.glist a) []
  other : ∀ i ∈ s.allReqs, addr i ≠ a

/-- `qc_alloc_service_request` at an address that is not in use. -/
theorem Holds.alloc (hm : Holds addr m s) {a : Addr} (hfree : m.lists.live (.list a) = false) :
    ∃ m', qcAllocServiceRequest m a = some m' ∧ Holds addr m' s ∧ New addr m' s a ∧
      m'.written = m.written := by
  let cleared : Heap Node := {
    live := Function.update (Function.update m.lists.live (.list a) true) (.glist a) true
    prev := Function.update (Function.update m.lists.prev (.list a) none) (.glist a) none
    next := Function.update (Function.update m.lists.next (.list a) none) (.glist a) none }
  have hlist : cleared.live (.list a) = true := by simp [cleared]
  obtain ⟨h₁, hinit₁, hlive₁, hring₁, hframe₁⟩ := initListHead_spec hlist
  have hglist : h₁.live (.glist a) = true := by
    rw [hlive₁]
    simp [cleared]
  obtain ⟨h₂, hinit₂, hlive₂, hring₂, hframe₂⟩ := initListHead_spec hglist
  let mine (x : Node) : Prop := x = .list a ∨ x = .glist a
  have hframe : Frame mine m.lists h₂ := by
    refine (Frame.trans ?_ (hframe₁.mono fun x hx ↦ Or.inl hx)).trans
      (hframe₂.mono fun x hx ↦ Or.inr hx)
    intro x hx
    rw [not_or] at hx
    simp [cleared, Function.update_of_ne, hx.1, hx.2]
  have hdead (x : Node) (hx : m.lists.live x = true) : ¬mine x := by
    rintro (rfl | rfl)
    · rw [hfree] at hx
      cases hx
    · rw [hm.both, hfree] at hx
      cases hx
  have hother (i : Nat) (hi : i ∈ s.allReqs) : addr i ≠ a := by
    rintro rfl
    refine hdead (.glist (addr i)) (hm.all.live _ ?_) (Or.inr rfl)
    exact List.mem_cons_of_mem _ (List.mem_map_of_mem hi)
  refine ⟨{ m with lists := h₂, sr := Function.update m.sr a .zeroed }, ?_, ?_, ?_, rfl⟩
  · refine Option.bind_eq_some_iff.mpr ⟨h₁, hinit₁, ?_⟩
    exact Option.bind_eq_some_iff.mpr ⟨h₂, hinit₂, rfl⟩
  · constructor
    · exact hm.inj
    · exact hm.all.frame hframe fun x hx ↦ hdead x (hm.all.live x hx)
    · intro k
      exact (hm.stage k).frame hframe fun x hx ↦ hdead x ((hm.stage k).live x hx)
    · intro i hi
      simpa [Function.update_of_ne, hother i hi] using hm.sr i hi
    · intro b
      by_cases hb : b = a
      · subst hb
        simp [hlive₂, hlive₁, cleared]
      · simp [hlive₂, hlive₁, cleared, Function.update_of_ne, hb, hm.both b]
  · refine ⟨hring₁.frame hframe₂ ?_, hring₂, hother⟩
    intro x hx
    rw [List.mem_singleton.mp hx]
    exact Node.noConfusion

/-- Addresses matter for the items there are. -/
theorem Holds.congr (hm : Holds addr m s) {addr' : Nat → Addr}
    (h : ∀ i ∈ s.allReqs, addr' i = addr i) (hs : StageInv d s) : Holds addr' m s := by
  have hglist : glistNodes addr' s.allReqs = glistNodes addr s.allReqs :=
    List.map_congr_left fun i hi ↦ congrArg Node.glist (h i hi)
  have hlist (k : Stage) : listNodes addr' (s.stage k) = listNodes addr (s.stage k) :=
    List.map_congr_left fun i hi ↦ congrArg Node.list (h i (mem_all_of_stage hs hi))
  constructor
  · intro i hi j hj heq
    rw [h i hi, h j hj] at heq
    exact hm.inj i hi j hj heq
  · rw [hglist]
    exact hm.all
  · intro k
    rw [hlist]
    exact hm.stage k
  · intro i hi
    rw [h i hi]
    exact hm.sr i hi
  · exact hm.both

/-- The rings with a new item at their ends hold the lists with that item. -/
theorem Holds.insert (hm : Holds addr m s) {h : Heap Node} {n : Nat} {sr : QhgpuServiceRequest}
    (hlive : h.live = m.lists.live) (hother : ∀ i ∈ s.allReqs, addr i ≠ addr n)
    (hall : Ring h .allReqs (glistNodes addr s.allReqs ++ [.glist (addr n)]))
    (hstage : ∀ k, Ring h (.reqs k)
      (listNodes addr (s.stage k) ++ if k = g then [.list (addr n)] else []))
    (htall : t.allReqs = s.allReqs ++ [n])
    (htstage : ∀ k, t.stage k = s.stage k ++ if k = g then [n] else [])
    (htsr : t.sr = Function.update s.sr n sr) :
    Holds addr { m with lists := h, sr := Function.update m.sr (addr n) sr } t := by
  constructor
  · intro i hi j hj heq
    rw [htall, List.mem_append, List.mem_singleton] at hi hj
    rcases hi with hi | rfl <;> rcases hj with hj | rfl
    · exact hm.inj i hi j hj heq
    · exact absurd heq (hother i hi)
    · exact absurd heq.symm (hother j hj)
    · rfl
  · rw [htall, glistNodes_append]
    exact hall
  · intro k
    have hk := hstage k
    rw [htstage, listNodes_append]
    split at hk
    · next heq =>
      rw [if_pos heq]
      exact hk
    · next hne =>
      rw [if_neg hne]
      exact hk
  · intro i hi
    rw [htall, List.mem_append, List.mem_singleton] at hi
    rw [htsr]
    rcases hi with hi | rfl
    · have hin : i ≠ n := by
        rintro rfl
        exact hother i hi rfl
      simpa [Function.update_of_ne, hother i hi, hin] using hm.sr i hi
    · simp
  · intro a
    exact ((congrFun hlive _).trans (hm.both a)).trans (congrFun hlive _).symm

/-- `list_add_tail` puts a new item into `all_reqs`. -/
theorem Holds.addAll (hm : Holds addr m s) {a : Addr} (hnew : New addr m s a) :
    ∃ h, listAddTail m.lists (some (.glist a)) (some .allReqs) = some h ∧
      h.live = m.lists.live ∧ Ring h .allReqs (glistNodes addr s.allReqs ++ [.glist a]) ∧
      Ring h (.list a) [] ∧ ∀ k, Ring h (.reqs k) (listNodes addr (s.stage k)) := by
  have hnot : Node.glist a ∉ .allReqs :: glistNodes addr s.allReqs := by
    intro hx
    rcases mem_all_ring hx with heq | ⟨j, hj, heq⟩
    · cases heq
    · exact hnew.other j hj (Node.glist.inj heq).symm
  obtain ⟨h, hadd, hlive, hall, hframe⟩ :=
    hm.all.addTail (hnew.glist.live _ List.mem_cons_self) hnot
  refine ⟨h, hadd, hlive, hall, hnew.list.frame hframe ?_, ?_⟩
  · intro x hx
    rw [List.mem_singleton.mp hx]
    rintro (heq | hx')
    · cases heq
    · rcases mem_all_ring hx' with heq | ⟨_, _, heq⟩ <;> cases heq
  · intro k
    refine (hm.stage k).frame hframe ?_
    rintro x hx (rfl | hx')
    · rcases mem_stage_ring hx with heq | ⟨_, _, heq⟩ <;> cases heq
    · exact all_disjoint hx' hx

/-- `qc_init_service_request` on a new item brings memory to the lists with the request. -/
theorem Holds.qcInitServiceRequest (hm : Holds addr m s) (hs : StageInv d s) {a : Addr}
    (hnew : New addr m s a) {kureq : QhgpuKuRequest} (hstop : isStopRequest kureq = false) :
    ∃ m', qcInitServiceRequest d m a { kureq with mmapAddr := d.mmapAddrArr kureq.id } =
        some m' ∧
      Holds (Function.update addr s.requests.length a) m' (qcAccept d s kureq).2 ∧
      m'.written = m.written := by
  obtain ⟨_, g, sr, _, htall, _, htsr, hrec, hsteps, htstage⟩ := hs.qcAccept_spec hstop
  generalize (qcAccept d s kureq).2 = t at htall htsr htstage ⊢
  have hold (i : Nat) (hi : i ∈ s.allReqs) : i ≠ s.requests.length := by
    rintro rfl
    obtain ⟨k, hk⟩ := (hs.mem_all _).mp hi
    exact Nat.lt_irrefl _ (hs.lt_length hk)
  have hkeep (i : Nat) (hi : i ∈ s.allReqs) :
      Function.update addr s.requests.length a i = addr i := Function.update_of_ne (hold i hi) ..
  have hself : Function.update addr s.requests.length a s.requests.length = a :=
    Function.update_self ..
  replace hm := hm.congr hkeep hs
  replace hnew : New (Function.update addr s.requests.length a) m s a :=
    ⟨hnew.list, hnew.glist, fun i hi ↦ by
      rw [hkeep i hi]
      exact hnew.other i hi⟩
  generalize Function.update addr s.requests.length a = addr' at hm hnew hself ⊢
  obtain ⟨h₁, hadd, hlive₁, hall₁, hlone, hstage₁⟩ := hm.addAll hnew
  have hnode : m.lists.live (.list a) = true := hnew.list.live _ List.mem_cons_self
  have hnode₁ : h₁.live (.list a) = true := by
    rw [hlive₁]
    exact hnode
  have hnotall : Node.list a ∉ .allReqs :: (glistNodes addr' s.allReqs ++ [.glist a]) := by
    simp [glistNodes]
  have halldisj (x : Node) (hx : x ∈ .allReqs :: (glistNodes addr' s.allReqs ++ [.glist a])) :
      x ∉ .reqs g :: listNodes addr' (s.stage g) := by
    rw [← List.cons_append, List.mem_append, List.mem_singleton] at hx
    rcases hx with hx | rfl
    · exact all_disjoint hx
    · simp [listNodes]
  have hnot (k : Stage) : Node.list a ∉ .reqs k :: listNodes addr' (s.stage k) := by
    intro hx
    rcases mem_stage_ring hx with heq | ⟨j, hj, heq⟩
    · cases heq
    · exact hnew.other j (mem_all_of_stage hs hj) (Node.list.inj heq).symm
  have hdisj (k : Stage) (hk : k ≠ g) (x : Node) (hx : x ∈ .reqs k :: listNodes addr' (s.stage k)) :
      x ∉ .reqs g :: listNodes addr' (s.stage g) := hm.disjoint hs hk hx
  -- the record, and the heap when the item has been put on its stage list
  obtain ⟨h₂, hinit, hlive₂, hall₂, hstage₂⟩ : ∃ h₂,
      Memory.qcInitServiceRequest d m a { kureq with mmapAddr := d.mmapAddrArr kureq.id } =
        some { m with lists := h₂, sr := Function.update m.sr a sr } ∧ h₂.live = m.lists.live ∧
      Ring h₂ .allReqs (glistNodes addr' s.allReqs ++ [.glist a]) ∧
      ∀ k, Ring h₂ (.reqs k)
        (listNodes addr' (s.stage k) ++ if k = g then [.list a] else []) := by
    unfold Stage.record at hrec
    unfold Memory.qcInitServiceRequest
    rw [hadd, Option.bind_eq_bind, Option.bind_some, State.setSr_live hnode₁,
      Option.bind_eq_bind, Option.bind_some]
    cases hl : qcLookupService d.services kureq.serviceName with
    | some service =>
      obtain rfl : g = .init := by
        cases g <;> simp [hl, Stage.steps] at hrec hsteps ⊢
      obtain ⟨h₂, hadd₂, hlive₂, hall₂, hstage₂⟩ :=
        addTail_rings hall₁ hstage₁ hnode₁ hnotall hnot halldisj hdisj
      refine ⟨h₂, ?_, hlive₂.trans hlive₁, hall₂, hstage₂⟩
      simp only [hl, Option.some.injEq] at hrec
      simp [State.getSr, State.setSr, hnode₁, hadd₂, ← hrec, Function.update_idem, copiedRecord]
      rfl
    | none =>
      obtain rfl : g = .done := by
        cases g <;> simp [hl] at hrec ⊢
      obtain ⟨h', hdel, hlive', hframe'⟩ := hlone.del_alone
      have hall' := hall₁.frame hframe' fun x hx heq ↦ hnotall (heq ▸ hx)
      have hstage' (k : Stage) : Ring h' (.reqs k) (listNodes addr' (s.stage k)) :=
        (hstage₁ k).frame hframe' fun x hx heq ↦ hnot k (heq ▸ hx)
      obtain ⟨h₂, hadd₂, hlive₂, hall₂, hstage₂⟩ :=
        addTail_rings hall' hstage' (hlive' ▸ hnode₁) hnotall hnot halldisj hdisj
      refine ⟨h₂, ?_, hlive₂.trans (hlive'.trans hlive₁), hall₂, hstage₂⟩
      simp only [hl, Option.some.injEq] at hrec
      simp [qcFailRequest, State.getSr, State.setSr, State.moveTail, listMoveTail, hnode₁, hdel,
        hadd₂, ← hrec, Function.update_idem, copiedRecord]
  refine ⟨_, hinit, ?_, rfl⟩
  rw [← hself] at hall₂ hstage₂ ⊢
  exact hm.insert hlive₂ (fun i hi ↦ hself.symm ▸ hnew.other i hi) hall₂ hstage₂ htall htstage htsr

end QHGPU.Connector.Memory
