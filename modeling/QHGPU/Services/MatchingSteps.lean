import QHGPU.Library.AtomicSteps
import QHGPU.Services.MatchingOrders

/-!
# Packet matching in larger steps

The kernel with each comparison, and the store that follows a match, for one step, and the final
test with its store for another. Whether the order of these steps matters is decided by the
entries with two visitors.
-/

namespace QHGPU.Firewall

open AtomicSteps (Config)

/-- `packet_buff`. -/
abbrev Packets := Nat → BitVec 32

/-- What is left of an item: the rules to compare with, and then the final test, or nothing. -/
inductive Left where
  | rules (is : List Nat)
  | done

/-- The next step of an item, `src/kernel/gpu_firewall_Kernels.cl:8–17`. A match leaves the loop. -/
def matchStep (rules : Nat → BitVec 32) (item : Fin 32 × Fin 32) (m : Packets) :
    Left → Option (Packets × Left)
  | .rules (i :: is) =>
    if m (packetBuffIndex item) = rules i then
      some (Function.update m (packetBuffIndex item) 1, .rules [])
    else some (m, .rules is)
  | .rules [] =>
    some (if m (packetBuffIndex item) ≠ 1 then Function.update m (packetBuffIndex item) 0 else m,
      .done)
  | .done => none

/-- Some items at the start of the kernel; the others are not launched. An index that is not
below `PACKET_BUFF_SIZE` has nothing to do. -/
def started (n : Nat) (items : Finset (Fin 32 × Fin 32)) (item : Fin 32 × Fin 32) : Left :=
  if item ∈ items ∧ packetBuffIndex item < n then .rules (List.range 2048) else .done

/-- What the kernel can leave when these items are launched. -/
def Matching (rules : Nat → BitVec 32) (n : Nat) (items : Finset (Fin 32 × Fin 32)) :
    Packets → Packets → Prop :=
  AtomicSteps.Launch (matchStep rules) (started n items)

/-- All orders of the 32 × 32 items leave the same packets, and an entry with two visitors gets
the flag that either of them alone would give it. -/
structure OrderFree (rules : Nat → BitVec 32) (n : Nat) (packets : Packets) : Prop where
  same : ∀ m m', Matching rules n Finset.univ packets m → Matching rules n Finset.univ packets m' →
    m = m'
  alone : ∀ m, Matching rules n Finset.univ packets m → ∀ item item', item ≠ item' →
    packetBuffIndex item = packetBuffIndex item' → packetBuffIndex item < n →
    ∀ m', Matching rules n {item} packets m' → m (packetBuffIndex item) = m' (packetBuffIndex item)

/-- Some rule is the value. -/
def Rule (rules : Nat → BitVec 32) (a : BitVec 32) : Prop := ∃ i < 2048, rules i = a

instance (rules : Nat → BitVec 32) (a : BitVec 32) : Decidable (Rule rules a) :=
  inferInstanceAs (Decidable (∃ i < 2048, rules i = a))

/-- What a visit makes of a value. -/
def flag (rules : Nat → BitVec 32) (a : BitVec 32) : BitVec 32 :=
  if a = 1 ∨ Rule rules a then 1 else 0

variable {rules : Nat → BitVec 32} {n p : Nat} {items : Finset (Fin 32 × Fin 32)}
  {item : Fin 32 × Fin 32} {a : BitVec 32} {packets m m' : Packets}
  {c c' : Config (Fin 32 × Fin 32) Packets Left}

private theorem flag_of_pos (h : a = 1 ∨ Rule rules a) : flag rules a = 1 := if_pos h

private theorem flag_of_neg (h : ¬(a = 1 ∨ Rule rules a)) : flag rules a = 0 := if_neg h

/-! ### A step -/

/-- What a step does: a match, a rule that is another value, or the final test. -/
inductive MatchTrans (rules : Nat → BitVec 32) (item : Fin 32 × Fin 32) (m : Packets) :
    Left → Packets → Left → Prop where
  | found {i : Nat} {is : List Nat} (hmatch : m (packetBuffIndex item) = rules i) :
    MatchTrans rules item m (.rules (i :: is)) (Function.update m (packetBuffIndex item) 1)
      (.rules [])
  | next {i : Nat} {is : List Nat} (hne : m (packetBuffIndex item) ≠ rules i) :
    MatchTrans rules item m (.rules (i :: is)) m (.rules is)
  | last : MatchTrans rules item m (.rules [])
      (if m (packetBuffIndex item) ≠ 1 then Function.update m (packetBuffIndex item) 0 else m)
      .done

private theorem matchTrans_of_step {l l' : Left} (h : matchStep rules item m l = some (m', l')) :
    MatchTrans rules item m l m' l' := by
  cases l with
  | done => cases h
  | rules is =>
    cases is with
    | nil =>
      cases h
      exact .last
    | cons i is =>
      rw [matchStep] at h
      split at h
      · next hmatch =>
        cases h
        exact .found hmatch
      · next hne =>
        cases h
        exact .next hne

/-! ### The value of an entry -/

/-- The second visitor of the entry cannot take the 0 of the first for a rule: it is flagged, or
0 is no rule, or nobody else visits it. -/
def Safe (rules : Nat → BitVec 32) (items : Finset (Fin 32 × Fin 32)) (p : Nat) (a : BitVec 32) :
    Prop :=
  (a = 1 ∨ Rule rules a) ∨ ¬Rule rules 0 ∨
    ∀ item ∈ items, ∀ item' ∈ items, packetBuffIndex item = p → packetBuffIndex item' = p →
      item = item'

/-- What a visitor relies on with some rules left: a flagged entry is 1 already or its rule is
still to come, and another one is as it was, or 0 is no rule. -/
structure Visiting (rules : Nat → BitVec 32) (p : Nat) (a : BitVec 32) (m : Packets)
    (is : List Nat) : Prop where
  range : ∀ i ∈ is, i < 2048
  flagged : a = 1 ∨ Rule rules a → m p = 1 ∨ ∃ i ∈ is, rules i = a
  clean : ¬(a = 1 ∨ Rule rules a) → m p = a ∨ ¬Rule rules 0

/-- The entry has its old value or its flag, and the flag once a visitor is done. -/
structure Entry (rules : Nat → BitVec 32) (items : Finset (Fin 32 × Fin 32)) (p : Nat)
    (a : BitVec 32) (m : Packets) (stage : Fin 32 × Fin 32 → Left) : Prop where
  value : m p = a ∨ m p = flag rules a
  finished : ∀ item ∈ items, packetBuffIndex item = p → stage item = .done → m p = flag rules a
  visiting : ∀ item is, packetBuffIndex item = p → stage item = .rules is →
    item ∈ items ∧ Visiting rules p a m is

/-- A step of an item somewhere else. -/
theorem matchStep_of_ne {l l' : Left} (h : matchStep rules item m l = some (m', l'))
    (hne : packetBuffIndex item ≠ p) : m' p = m p := by
  cases matchTrans_of_step h with
  | found _ => exact Function.update_of_ne hne.symm _ _
  | next _ => rfl
  | last =>
    split
    · exact Function.update_of_ne hne.symm _ _
    · rfl

private theorem Visiting.congr {is : List Nat} (h : Visiting rules p a m is) (hm : m' p = m p) :
    Visiting rules p a m' is := by
  constructor
  · exact h.range
  · rw [hm]
    exact h.flagged
  · rw [hm]
    exact h.clean

/-- An item elsewhere. -/
theorem Entry.step_of_ne (h : Entry rules items p a c.mem c.stage) (hne : packetBuffIndex item ≠ p)
    (hm : m p = c.mem p) (l : Left) :
    Entry rules items p a m (Function.update c.stage item l) := by
  have hstage {item' : Fin 32 × Fin 32} (hidx : packetBuffIndex item' = p) :
      Function.update c.stage item l item' = c.stage item' := by
    apply Function.update_of_ne
    rintro rfl
    exact hne hidx
  constructor
  · rw [hm]
    exact h.value
  · intro item' hin hidx hdone
    rw [hm]
    exact h.finished item' hin hidx ((hstage hidx).symm.trans hdone)
  · intro item' is hidx his
    obtain ⟨hin, hvisiting⟩ := h.visiting item' is hidx ((hstage hidx).symm.trans his)
    exact ⟨hin, hvisiting.congr hm⟩

/-- A visitor goes on to the next rule. -/
theorem Entry.step_next {i : Nat} {is : List Nat} (h : Entry rules items p a c.mem c.stage)
    (hidx : packetBuffIndex item = p) (hstage : c.stage item = .rules (i :: is))
    (hne : c.mem p ≠ rules i) :
    Entry rules items p a c.mem (Function.update c.stage item (.rules is)) := by
  obtain ⟨hin, hvisiting⟩ := h.visiting item _ hidx hstage
  have hnext : Visiting rules p a c.mem is := by
    refine ⟨fun j hj ↦ hvisiting.range j (List.mem_cons_of_mem i hj), ?_, hvisiting.clean⟩
    intro hflag
    rcases hvisiting.flagged hflag with hone | ⟨j, hj, hrule⟩
    · exact Or.inl hone
    · rcases List.mem_cons.mp hj with rfl | hj
      · -- the rule of the entry is past, so that another visitor has seen it
        have hmoved : c.mem p ≠ a := fun heq ↦ hne (heq.trans hrule.symm)
        exact Or.inl ((h.value.resolve_left hmoved).trans (flag_of_pos hflag))
      · exact Or.inr ⟨j, hj, hrule⟩
  constructor
  · exact h.value
  · intro item' hin' hidx' hdone
    by_cases hitem : item' = item
    · subst hitem
      rw [Function.update_self] at hdone
      cases hdone
    · rw [Function.update_of_ne hitem] at hdone
      exact h.finished item' hin' hidx' hdone
  · intro item' is' hidx' his
    by_cases hitem : item' = item
    · subst hitem
      rw [Function.update_self] at his
      obtain rfl := Left.rules.inj his
      exact ⟨hin, hnext⟩
    · rw [Function.update_of_ne hitem] at his
      exact h.visiting item' is' hidx' his

/-- A visitor stores the flag, after a match or at the end, or finds it. -/
theorem Entry.step_flag {l : Left} (h : Entry rules items p a c.mem c.stage)
    (hsafe : Safe rules items p a) (hin : item ∈ items) (hidx : packetBuffIndex item = p)
    (hm : m p = flag rules a)
    (hl : l = .done ∨ l = .rules [] ∧ (a = 1 ∨ Rule rules a)) :
    Entry rules items p a m (Function.update c.stage item l) := by
  refine ⟨Or.inr hm, fun _ _ _ _ ↦ hm, ?_⟩
  intro item' is' hidx' his
  have hflagged (hflag : a = 1 ∨ Rule rules a) : m p = 1 ∨ ∃ i ∈ is', rules i = a :=
    Or.inl (hm.trans (flag_of_pos hflag))
  by_cases hitem : item' = item
  · subst hitem
    rw [Function.update_self] at his
    rcases hl with rfl | ⟨rfl, hflag⟩
    · cases his
    · obtain rfl := Left.rules.inj his
      exact ⟨hin, by simp, hflagged, fun hclean ↦ absurd hflag hclean⟩
  · rw [Function.update_of_ne hitem] at his
    obtain ⟨hin', hvisiting⟩ := h.visiting item' is' hidx' his
    refine ⟨hin', hvisiting.range, hflagged, ?_⟩
    intro hclean
    rcases hsafe with hflag | hzero | honly
    · exact absurd hflag hclean
    · exact Or.inr hzero
    · exact absurd (honly item' hin' item hin hidx' hidx) hitem

/-- A rule that names the value of an entry names its old value. -/
theorem Visiting.flag_of_rule {is : List Nat} (h : Visiting rules p a m is)
    (hvalue : m p = a ∨ m p = flag rules a) (hrule : Rule rules (m p)) :
    a = 1 ∨ Rule rules a := by
  by_contra hclean
  have hold : m p = a → False := fun heq ↦ hclean (Or.inr (heq ▸ hrule))
  have hnew : m p = 0 := (hvalue.resolve_left hold).trans (flag_of_neg hclean)
  rw [hnew] at hrule
  exact (h.clean hclean).elim hold fun hzero ↦ hzero hrule

/-- The final test of a visitor. -/
theorem Visiting.last (h : Visiting rules p a m []) (hvalue : m p = a ∨ m p = flag rules a) :
    (if m p ≠ 1 then Function.update m p 0 else m) p = flag rules a := by
  by_cases hflag : a = 1 ∨ Rule rules a
  · have hone : m p = 1 := (h.flagged hflag).resolve_right (by simp)
    rw [if_neg (not_not.mpr hone), hone, flag_of_pos hflag]
  · have hne : m p ≠ 1 := by
      intro hone
      rw [hone, flag_of_neg hflag] at hvalue
      exact hvalue.elim (fun heq ↦ hflag (Or.inl heq.symm)) (by decide)
    rw [if_pos hne, Function.update_self, flag_of_neg hflag]

/-- A step keeps what is known of the entry. -/
theorem Entry.step (hsafe : Safe rules items p a) (h : Entry rules items p a c.mem c.stage)
    (hstep : AtomicSteps.step (matchStep rules) c item = some c') :
    Entry rules items p a c'.mem c'.stage := by
  obtain ⟨m, l, hnext, rfl⟩ := AtomicSteps.step_eq_some_iff.mp hstep
  show Entry rules items p a m (Function.update c.stage item l)
  by_cases hidx : packetBuffIndex item = p
  · have htrans := matchTrans_of_step hnext
    generalize hstage : c.stage item = left at htrans
    subst hidx
    cases htrans with
    | found hmatch =>
      obtain ⟨hin, hvisiting⟩ := h.visiting item _ rfl hstage
      have hflag := hvisiting.flag_of_rule h.value
        ⟨_, hvisiting.range _ List.mem_cons_self, hmatch.symm⟩
      apply h.step_flag hsafe hin rfl _ (Or.inr ⟨rfl, hflag⟩)
      rw [Function.update_self, flag_of_pos hflag]
    | next hne => exact h.step_next rfl hstage hne
    | last =>
      obtain ⟨hin, hvisiting⟩ := h.visiting item _ rfl hstage
      exact h.step_flag hsafe hin rfl (hvisiting.last h.value) (Or.inl rfl)
  · exact h.step_of_ne hidx (matchStep_of_ne hnext hidx) l

private theorem entry_started (hp : p < n) :
    Entry rules items p (packets p) packets (started n items) := by
  constructor
  · exact Or.inl rfl
  · intro item hin hidx hdone
    rw [started, if_pos ⟨hin, hidx ▸ hp⟩] at hdone
    cases hdone
  · intro item is hidx his
    rw [started] at his
    split at his
    · next hin =>
      obtain rfl := Left.rules.inj his
      refine ⟨hin.1, fun i hi ↦ List.mem_range.mp hi, ?_, fun _ ↦ Or.inl rfl⟩
      rintro (hone | ⟨i, hi, hrule⟩)
      · exact Or.inl hone
      · exact Or.inr ⟨i, List.mem_range.mpr hi, hrule⟩
    · cases his

private theorem stage_of_complete (h : AtomicSteps.Complete (matchStep rules) c)
    (item : Fin 32 × Fin 32) : c.stage item = .done := by
  have hnone := h item
  cases hstage : c.stage item with
  | done => rfl
  | rules is =>
    rw [hstage] at hnone
    cases is with
    | nil => cases hnone
    | cons i is =>
      rw [matchStep] at hnone
      split at hnone
      · cases hnone
      · cases hnone

/-- A visited entry gets its flag, in every order. -/
theorem Matching.visited (h : Matching rules n items packets m) (hp : p < n)
    (hsafe : Safe rules items p (packets p)) (hin : item ∈ items)
    (hidx : packetBuffIndex item = p) : m p = flag rules (packets p) := by
  obtain ⟨acts, c, hrun, hcomplete, rfl⟩ := h
  have hentry : Entry rules items p (packets p) c.mem c.stage :=
    StepRun.run_invariant_of_step (I := fun c ↦ Entry rules items p (packets p) c.mem c.stage)
      (fun _ _ _ hinv hstep ↦ Entry.step hsafe hinv hstep) (entry_started hp) hrun
  exact hentry.finished item hin hidx (stage_of_complete hcomplete item)

/-- The other entries keep their values. -/
theorem mem_of_run {acts : List (Fin 32 × Fin 32)}
    (hrun : StepRun.run (AtomicSteps.step (matchStep rules)) c acts = some c')
    (hnone : ∀ item, packetBuffIndex item = p → c.stage item = .done) : c'.mem p = c.mem p := by
  have hkeep : c'.mem p = c.mem p ∧ ∀ item, packetBuffIndex item = p → c'.stage item = .done := by
    refine StepRun.run_invariant_of_step
      (I := fun s ↦ s.mem p = c.mem p ∧ ∀ item, packetBuffIndex item = p → s.stage item = .done)
      ?_ ⟨rfl, hnone⟩ hrun
    rintro s item s' ⟨hmem, hdone⟩ hstep
    obtain ⟨m, l, hnext, rfl⟩ := AtomicSteps.step_eq_some_iff.mp hstep
    have hne : packetBuffIndex item ≠ p := by
      intro hidx
      rw [hdone item hidx] at hnext
      cases hnext
    refine ⟨(matchStep_of_ne hnext hne).trans hmem, ?_⟩
    intro item' hidx
    have hitem : item' ≠ item := fun heq ↦ hne (heq ▸ hidx)
    exact (Function.update_of_ne hitem _ _).trans (hdone item' hidx)
  exact hkeep.1

private theorem Matching.unvisited (h : Matching rules n items packets m)
    (hnone : ∀ item ∈ items, packetBuffIndex item = p → n ≤ p) : m p = packets p := by
  obtain ⟨acts, c, hrun, _, rfl⟩ := h
  apply mem_of_run hrun
  intro item hidx
  apply if_neg
  rintro ⟨hin, hlt⟩
  have := hnone item hin hidx
  omega

/-! ### Orders that differ -/

/-- The comparisons of one item, when nobody else moves. -/
theorem exists_compare (rules : Nat → BitVec 32) {is : List Nat}
    (hstage : c.stage item = .rules is) :
    ∃ acts, StepRun.run (AtomicSteps.step (matchStep rules)) c acts = some
      ⟨if ∃ i ∈ is, rules i = c.mem (packetBuffIndex item) then
          Function.update c.mem (packetBuffIndex item) 1 else c.mem,
        Function.update c.stage item (.rules [])⟩ := by
  induction is generalizing c with
  | nil =>
    refine ⟨[], ?_⟩
    rw [← hstage, Function.update_eq_self, if_neg (by simp)]
    rfl
  | cons i is ih =>
    by_cases hmatch : c.mem (packetBuffIndex item) = rules i
    · refine ⟨[item], StepRun.run_cons_iff.mpr ⟨_, ?_, rfl⟩⟩
      refine AtomicSteps.step_eq_some_iff.mpr ⟨_, _, ?_, rfl⟩
      rw [hstage, matchStep, if_pos hmatch, if_pos ⟨i, List.mem_cons_self, hmatch.symm⟩]
    · let c₁ : Config (Fin 32 × Fin 32) Packets Left :=
        ⟨c.mem, Function.update c.stage item (.rules is)⟩
      obtain ⟨acts, hacts⟩ := @ih c₁ (Function.update_self ..)
      refine ⟨item :: acts, StepRun.run_cons_iff.mpr ⟨c₁, ?_, ?_⟩⟩
      · refine AtomicSteps.step_eq_some_iff.mpr ⟨c.mem, .rules is, ?_, rfl⟩
        rw [hstage, matchStep, if_neg hmatch]
      · rw [hacts]
        simp [c₁, Ne.symm hmatch]

private theorem exists_mem_range_iff : (∃ i ∈ List.range 2048, rules i = a) ↔ Rule rules a :=
  exists_congr fun _ ↦ and_congr_left fun _ ↦ List.mem_range

/-- A whole visit, when nobody else moves. -/
theorem exists_visit (rules : Nat → BitVec 32) (hstage : c.stage item = .rules (List.range 2048)) :
    ∃ acts, StepRun.run (AtomicSteps.step (matchStep rules)) c acts = some
      ⟨Function.update c.mem (packetBuffIndex item) (flag rules (c.mem (packetBuffIndex item))),
        Function.update c.stage item .done⟩ := by
  obtain ⟨acts, hacts⟩ := exists_compare rules hstage
  generalize hidx : packetBuffIndex item = idx at hacts
  rw [if_congr exists_mem_range_iff rfl rfl] at hacts
  generalize hm : (if Rule rules (c.mem idx) then Function.update c.mem idx 1 else c.mem) = m
    at hacts
  refine ⟨acts ++ [item], StepRun.run_append hacts (StepRun.run_cons_iff.mpr ⟨_, ?_, rfl⟩)⟩
  refine AtomicSteps.step_eq_some_iff.mpr ⟨_, .done, ?_, by rw [Function.update_idem]⟩
  change matchStep rules item m (Function.update c.stage item (.rules []) item) = _
  rw [Function.update_self, matchStep, hidx]
  refine congrArg (fun m ↦ some (m, Left.done)) ?_
  subst hm
  by_cases hrule : Rule rules (c.mem idx)
  · rw [if_pos hrule, Function.update_self, if_neg (by decide), flag_of_pos (Or.inr hrule)]
  · rw [if_neg hrule]
    by_cases hone : c.mem idx = 1
    · rw [if_neg (not_not.mpr hone), flag_of_pos (Or.inl hone), ← hone, Function.update_eq_self]
    · rw [if_pos hone, flag_of_neg (not_or.mpr ⟨hone, hrule⟩)]

/-- What an item has left: each rule is a step, and so is the final test. -/
def Left.weight : Left → Nat
  | .rules is => is.length + 1
  | .done => 0

private theorem weight_matchStep {l l' : Left} (h : matchStep rules item m l = some (m', l')) :
    l'.weight < l.weight := by
  cases matchTrans_of_step h with
  | found _ => simp [Left.weight]
  | next _ => simp [Left.weight]
  | last => simp [Left.weight]

/-- From every configuration the items come to an end. -/
theorem exists_complete (rules : Nat → BitVec 32) (c : Config (Fin 32 × Fin 32) Packets Left) :
    ∃ acts c', StepRun.run (AtomicSteps.step (matchStep rules)) c acts = some c' ∧
      AtomicSteps.Complete (matchStep rules) c' :=
  AtomicSteps.exists_complete (fun _ ↦ Left.weight) (fun _ _ _ _ _ ↦ weight_matchStep) c

/-- The second visitor takes the 0 of the first for a rule. -/
theorem exists_matching_again (hp : p < n) (hlow : 16 ≤ p) (hhigh : p < 512)
    (hclean : ¬(packets p = 1 ∨ Rule rules (packets p))) (hzero : Rule rules 0) :
    ∃ m, Matching rules n Finset.univ packets m ∧ m p = 1 := by
  have hfirst := packetBuffIndex_first hhigh
  have hsecond := packetBuffIndex_second hhigh hlow
  have hstart {item : Fin 32 × Fin 32} (hidx : packetBuffIndex item = p) :
      started n Finset.univ item = .rules (List.range 2048) :=
    if_pos ⟨Finset.mem_univ item, hidx ▸ hp⟩
  let c₀ : Config (Fin 32 × Fin 32) Packets Left := ⟨packets, started n Finset.univ⟩
  obtain ⟨acts₁, hrun₁⟩ := exists_visit (c := c₀) rules (hstart hfirst)
  rw [hfirst, flag_of_neg hclean] at hrun₁
  let c₁ : Config (Fin 32 × Fin 32) Packets Left :=
    ⟨Function.update packets p 0, Function.update (started n Finset.univ) (first p) .done⟩
  have hstage₁ : c₁.stage (second p) = .rules (List.range 2048) :=
    (Function.update_of_ne (first_ne_second p).symm _ _).trans (hstart hsecond)
  obtain ⟨acts₂, hrun₂⟩ := exists_visit rules hstage₁
  have hfound : c₁.mem p = 0 := Function.update_self ..
  rw [hsecond, hfound, flag_of_pos (Or.inr hzero)] at hrun₂
  let c₂ : Config (Fin 32 × Fin 32) Packets Left :=
    ⟨Function.update c₁.mem p 1, Function.update c₁.stage (second p) .done⟩
  have hdone (item : Fin 32 × Fin 32) (hidx : packetBuffIndex item = p) :
      c₂.stage item = .done := by
    by_cases hitem : item = second p
    · subst hitem
      exact Function.update_self ..
    · obtain rfl : item = first p :=
        (eq_first_or_second hhigh hidx).resolve_right fun h ↦ hitem h.2
      exact (Function.update_of_ne hitem _ _).trans (Function.update_self ..)
  obtain ⟨acts₃, c₃, hrun₃, hcomplete⟩ := exists_complete rules c₂
  have hrun := StepRun.run_append (StepRun.run_append hrun₁ hrun₂) hrun₃
  exact ⟨c₃.mem, ⟨_, c₃, hrun, hcomplete, rfl⟩,
    (mem_of_run hrun₃ hdone).trans (Function.update_self ..)⟩

/-! ### The condition -/

/-- An entry outside 16 to 511 has one visitor. -/
theorem eq_of_packetBuffIndex {item' : Fin 32 × Fin 32} (h : packetBuffIndex item = p)
    (h' : packetBuffIndex item' = p) (hp : ¬(16 ≤ p ∧ p < 512)) : item = item' := by
  obtain ⟨⟨x, hx⟩, ⟨y, hy⟩⟩ := item
  obtain ⟨⟨x', hx'⟩, ⟨y', hy'⟩⟩ := item'
  simp only [packetBuffIndex] at h h'
  simp only [Prod.mk.injEq, Fin.mk.injEq]
  omega

/-- One item alone. -/
theorem Matching.visited_alone (h : Matching rules n {item} packets m)
    (hlt : packetBuffIndex item < n) :
    m (packetBuffIndex item) = flag rules (packets (packetBuffIndex item)) := by
  have honly : ∀ i ∈ ({item} : Finset (Fin 32 × Fin 32)), ∀ i' ∈ ({item} : Finset _),
      packetBuffIndex i = packetBuffIndex item → packetBuffIndex i' = packetBuffIndex item →
        i = i' := by
    intro i hi i' hi' _ _
    rw [Finset.mem_singleton.mp hi, Finset.mem_singleton.mp hi']
  exact h.visited hlt (Or.inr (Or.inr honly)) (Finset.mem_singleton_self item) rfl

private theorem OrderFree.flagged_or (h : OrderFree rules n packets) (hp : p < n) (hlow : 16 ≤ p)
    (hhigh : p < 512) : (packets p = 1 ∨ Rule rules (packets p)) ∨ ¬Rule rules 0 := by
  by_contra hnot
  obtain ⟨hclean, hzero⟩ := not_or.mp hnot
  obtain ⟨m, hm, hone⟩ := exists_matching_again hp hlow hhigh hclean (not_not.mp hzero)
  have hfirst := packetBuffIndex_first hhigh
  have hsecond := packetBuffIndex_second hhigh hlow
  obtain ⟨acts, c, hrun, hcomplete⟩ := exists_complete rules ⟨packets, started n {first p}⟩
  have hmatching : Matching rules n {first p} packets c.mem := ⟨acts, c, hrun, hcomplete, rfl⟩
  have hsame := h.alone m hm (first p) (second p) (first_ne_second p)
    (hfirst.trans hsecond.symm) (hfirst.symm ▸ hp) c.mem hmatching
  rw [hmatching.visited_alone (hfirst.symm ▸ hp), hfirst, hone, flag_of_neg hclean] at hsame
  exact absurd hsame (by decide)

private theorem orderFree_of_flagged_or (h : ∀ p < n, 16 ≤ p → p < 512 →
    (packets p = 1 ∨ Rule rules (packets p)) ∨ ¬Rule rules 0) : OrderFree rules n packets := by
  have hsafe {p : Nat} (hp : p < n) : Safe rules Finset.univ p (packets p) := by
    by_cases hrange : 16 ≤ p ∧ p < 512
    · exact (h p hp hrange.1 hrange.2).imp_right Or.inl
    · exact Or.inr (Or.inr fun _ _ _ _ hi hi' ↦ eq_of_packetBuffIndex hi hi' hrange)
  have hvalue {m : Packets} (hm : Matching rules n Finset.univ packets m)
      (item : Fin 32 × Fin 32) (hlt : packetBuffIndex item < n) :
      m (packetBuffIndex item) = flag rules (packets (packetBuffIndex item)) :=
    hm.visited hlt (hsafe hlt) (Finset.mem_univ item) rfl
  constructor
  · intro m m' hm hm'
    ext1 p
    by_cases hvisited : ∃ item, packetBuffIndex item = p ∧ p < n
    · obtain ⟨item, rfl, hlt⟩ := hvisited
      rw [hvalue hm item hlt, hvalue hm' item hlt]
    · have hnone (item : Fin 32 × Fin 32) (_ : item ∈ Finset.univ)
          (hidx : packetBuffIndex item = p) : n ≤ p :=
        Nat.le_of_not_lt fun hlt ↦ hvisited ⟨item, hidx, hlt⟩
      rw [hm.unvisited hnone, hm'.unvisited hnone]
  · intro m hm item _ _ _ hlt m' hm'
    rw [hvalue hm item hlt, hm'.visited_alone hlt]

/-- The order does not matter exactly when every packet with two visitors is flagged or 0 is no
rule. -/
theorem orderFree_iff (rules : Nat → BitVec 32) (n : Nat) (packets : Packets) :
    OrderFree rules n packets ↔ ∀ p < n, 16 ≤ p → p < 512 →
      (packets p = 1 ∨ Rule rules (packets p)) ∨ ¬Rule rules 0 :=
  ⟨fun h _ hp hlow hhigh ↦ h.flagged_or hp hlow hhigh, orderFree_of_flagged_or⟩

/-- Seventeen packets from an address that no rule names, and rules for address 0. -/
theorem not_orderFree_zero : ¬∀ (rules : Nat → BitVec 32) (n : Nat) (packets : Packets),
    OrderFree rules n packets := by
  intro hall
  have h := (hall (fun _ ↦ 0) 17 fun _ ↦ 7).flagged_or (p := 16) (by decide) (by decide) (by decide)
  rcases h with (hone | ⟨_, _, hrule⟩) | hzero
  · exact absurd hone (by decide)
  · cases hrule
  · exact hzero ⟨0, by decide, rfl⟩

end QHGPU.Firewall
