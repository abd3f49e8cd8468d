import QHGPU.Library.Schedules
import QHGPU.Services.PacketMatching

/-!
# Orders of packet matching

Most entries of the packet buffer are visited by two items of the range, and one may read what
the other has stored.
-/

namespace QHGPU.Firewall

open WorkItems (Prog Launch Runs store)

variable {table : Nat → BitVec 64} {n : Nat} {sipBuff : Nat → BitVec 32}
  {other m : Place → BitVec 32} {item : Fin 32 × Fin 32} {idx : Nat}

/-! ### Visits -/

private theorem access_packetMatching (h : packetBuffIndex item < n) :
    (packetMatching n item).access = some (.packet (packetBuffIndex item)) := by
  rw [packetMatching, if_pos h]
  generalize List.range 2048 = is
  cases is with
  | nil => rfl
  | cons i is => rfl

private theorem avoids_matchRules {p : Nat} (hne : idx ≠ p) (is : List Nat) :
    (matchRules idx is).Avoids (.packet p) := by
  induction is with
  | nil => trivial
  | cons i is ih =>
    intro packet rule
    change (if packet = rule then store (.packet idx) 1 else matchRules idx is).Avoids _
    split
    · exact ⟨by simpa using hne, trivial⟩
    · exact ih

/-- An item stores to its own entry only. -/
theorem avoids_packetMatching {p : Nat} (hne : packetBuffIndex item ≠ p) :
    (packetMatching n item).Avoids (.packet p) := by
  rw [packetMatching]
  generalize List.range 2048 = is
  split
  · refine (avoids_matchRules hne is).bind fun _ packet ↦ ?_
    change (if packet ≠ 1 then store (Place.packet _) 0 else pure ()).Avoids _
    split
    · exact ⟨by simpa using hne, trivial⟩
    · trivial
  · trivial

/-- The loop, when nobody else moves. -/
theorem runs_matchRules (is : List Nat) : Runs m (matchRules idx is)
    (if ∃ j ∈ is, m (.rule j) = m (.packet idx) then Function.update m (.packet idx) 1 else m)
    (pure ()) := by
  induction is with
  | nil => simpa [matchRules] using Runs.refl
  | cons i is ih =>
    refine .get (.get ?_)
    change Runs m (if m (.packet idx) = m (.rule i) then store (.packet idx) 1
      else matchRules idx is) _ _
    by_cases heq : m (.packet idx) = m (.rule i)
    · rw [if_pos heq, if_pos ⟨i, List.mem_cons_self, heq.symm⟩]
      exact .put .refl
    · rw [if_neg heq]
      simpa [Ne.symm heq] using ih

/-- What the loop compares with. -/
def Rules (table : Nat → BitVec 64) (m : Place → BitVec 32) : Prop :=
  ∀ j < 2048, m (.rule j) = ruleWord table j

private theorem Rules.update (h : Rules table m) (idx : Nat) (a : BitVec 32) :
    Rules table (Function.update m (.packet idx) a) := by
  intro j hj
  rw [Function.update_of_ne (by simp)]
  exact h j hj

private theorem Rules.exists_iff (h : Rules table m) (a : BitVec 32) :
    (∃ j ∈ List.range 2048, m (.rule j) = a) ↔ Word table a := by
  rw [Word]
  refine exists_congr fun j ↦ ?_
  rw [List.mem_range]
  exact and_congr_right fun hj ↦ by rw [h j hj]

/-- A visit of an entry that is flagged leaves 1. -/
theorem runs_flagged (hitem : packetBuffIndex item = idx) (hlt : idx < n) (h : Rules table m)
    (hflag : Flagged table (m (.packet idx))) : Runs m (packetMatching n item)
      (Function.update m (.packet idx) 1) (pure ()) := by
  have hloop : Runs m (matchRules idx (List.range 2048)) (Function.update m (.packet idx) 1)
      (pure ()) := by
    have hloop : Runs m (matchRules idx (List.range 2048)) _ _ := runs_matchRules _
    by_cases hword : Word table (m (.packet idx))
    · rwa [if_pos ((h.exists_iff _).mpr hword)] at hloop
    · rw [if_neg (mt (h.exists_iff _).mp hword)] at hloop
      rwa [← hflag.resolve_right hword, Function.update_eq_self]
  rw [packetMatching, hitem, if_pos hlt]
  refine (hloop.bind _).trans (.get ?_)
  rw [Function.update_self, Prog.bind, if_neg (by decide)]
  exact .refl

/-- A visit of an entry that is not flagged is left with a store of 0. -/
theorem runs_clean (hitem : packetBuffIndex item = idx) (hlt : idx < n) (h : Rules table m)
    (hclean : ¬Flagged table (m (.packet idx))) :
    Runs m (packetMatching n item) m (store (.packet idx) 0) := by
  obtain ⟨hne, hword⟩ := not_or.mp hclean
  have hloop : Runs m (matchRules idx (List.range 2048)) _ _ := runs_matchRules _
  rw [if_neg (mt (h.exists_iff _).mp hword)] at hloop
  rw [packetMatching, hitem, if_pos hlt]
  refine (hloop.bind _).trans (.get ?_)
  rw [Prog.bind, if_pos hne]
  exact .refl

/-! ### Orders of the visits -/

/-- The two items that visit entry `p`, the second one for `16 ≤ p` only. -/
def first (p : Nat) : Fin 32 × Fin 32 := (Fin.ofNat 32 (p % 16), Fin.ofNat 32 (p / 16))

def second (p : Nat) : Fin 32 × Fin 32 := (Fin.ofNat 32 (p % 16 + 16), Fin.ofNat 32 (p / 16 - 1))

/-- The first visitor of an entry. -/
theorem packetBuffIndex_first {p : Nat} (hp : p < 512) : packetBuffIndex (first p) = p := by
  simp only [packetBuffIndex, first, Fin.val_ofNat]
  omega

/-- The second visitor of an entry. -/
theorem packetBuffIndex_second {p : Nat} (hp : p < 512) (hlow : 16 ≤ p) :
    packetBuffIndex (second p) = p := by
  simp only [packetBuffIndex, second, Fin.val_ofNat]
  omega

/-- They are two items. -/
theorem first_ne_second (p : Nat) : first p ≠ second p := by
  simp only [first, second, ne_eq, Prod.mk.injEq, Fin.ext_iff, Fin.val_ofNat]
  omega

/-- There is no third visitor. -/
theorem eq_first_or_second {p : Nat} (hp : p < 512) (h : packetBuffIndex item = p) :
    item = first p ∨ 16 ≤ p ∧ item = second p := by
  obtain ⟨⟨x, hx⟩, ⟨y, hy⟩⟩ := item
  simp only [packetBuffIndex] at h
  simp only [first, second, Prod.mk.injEq, Fin.ext_iff, Fin.val_ofNat]
  omega

/-- The first visitor of an entry, then the whole of the second, then what is left of the first,
and then all others. -/
theorem exists_doWork {p : Nat} (hp : p < n) (hsmall : n ≤ 128)
    {m₁ m₂ m₃ : Place → BitVec 32} {rest : Prog Place (BitVec 32) Unit}
    (hfirst : Runs (written table sipBuff other) (packetMatching n (first p)) m₁ rest)
    (hsecond : (16 ≤ p ∧ Runs m₁ (packetMatching n (second p)) m₂ (pure ())) ∨ (p < 16 ∧ m₂ = m₁))
    (hrest : Runs m₂ rest m₃ (pure ())) :
    ∃ after, DoWork table n sipBuff after ∧ after p = m₃ (.packet p) := by
  have hp' : p < 128 := hp.trans_le hsmall
  obtain ⟨acts₁, hrun₁⟩ := hfirst.schedule workGroup (packetMatching n)
  obtain ⟨acts, prog, hrun, hprog, hprog'⟩ : ∃ acts prog,
      StepRun.run (WorkItems.step workGroup) ⟨written table sipBuff other, packetMatching n⟩ acts =
        some ⟨m₂, prog⟩ ∧ prog (first p) = rest ∧
      ∀ item ≠ first p, (prog item).Avoids (.packet p) := by
    rcases hsecond with ⟨hlow, hsecond⟩ | ⟨hlow, rfl⟩
    · obtain ⟨acts₂, hrun₂⟩ := Runs.schedule workGroup
        (Function.update (packetMatching n) (first p) rest) (i := second p)
        (by rwa [Function.update_of_ne (first_ne_second p).symm])
      refine ⟨_, _, StepRun.run_append hrun₁ hrun₂, ?_, ?_⟩
      · rw [Function.update_of_ne (first_ne_second p), Function.update_self]
      · intro item hne
        by_cases heq : item = second p
        · rw [heq, Function.update_self]
          trivial
        · rw [Function.update_of_ne heq, Function.update_of_ne hne]
          exact avoids_packetMatching fun hitem ↦
            heq ((eq_first_or_second (hp'.trans (by decide)) hitem).resolve_left hne).2
    · refine ⟨_, _, hrun₁, Function.update_self .., ?_⟩
      intro item hne
      rw [Function.update_of_ne hne]
      apply avoids_packetMatching
      intro hitem
      have := (eq_first_or_second (hp'.trans (by decide)) hitem).resolve_left hne
      omega
  obtain ⟨acts₃, hrun₃⟩ := Runs.schedule workGroup prog (hprog.symm ▸ hrest)
  have havoid (item : Fin 32 × Fin 32) :
      (Function.update prog (first p) (pure ()) item).Avoids (.packet p) := by
    by_cases heq : item = first p
    · rw [heq, Function.update_self]
      trivial
    · rw [Function.update_of_ne heq]
      exact hprog' item heq
  obtain ⟨m, hlaunch, hm⟩ := WorkItems.exists_launch_of_run (free_packetMatching n)
    (StepRun.run_append hrun hrun₃) havoid
  exact ⟨_, ⟨other, m, hlaunch, rfl⟩, by rw [readBack, if_pos hp', hm]⟩

private theorem rules_written : Rules table (written table sipBuff other) := fun _ ↦ written_rule

/-- A flagged packet can be dropped. -/
theorem exists_doWork_flagged {p : Nat} (hp : p < n) (hsmall : n ≤ 128)
    (hflag : Flagged table (sipBuff p)) : ∃ after, DoWork table n sipBuff after ∧ after p = 1 := by
  have hp' : p < 128 := hp.trans_le hsmall
  have hrules : Rules table (written table sipBuff fun _ ↦ 0) := rules_written
  have hfirst := runs_flagged (packetBuffIndex_first (hp'.trans (by decide))) hp hrules
    ((written_packet hp').symm ▸ hflag)
  by_cases hlow : 16 ≤ p
  · have hsecond := runs_flagged (packetBuffIndex_second (hp'.trans (by decide)) hlow) hp
      (hrules.update p 1) (Or.inl (Function.update_self ..))
    obtain ⟨after, hafter, hval⟩ := exists_doWork hp hsmall hfirst (Or.inl ⟨hlow, hsecond⟩) .refl
    exact ⟨after, hafter, hval.trans (Function.update_self ..)⟩
  · obtain ⟨after, hafter, hval⟩ := exists_doWork hp hsmall hfirst
      (Or.inr ⟨Nat.lt_of_not_le hlow, rfl⟩) .refl
    exact ⟨after, hafter, hval.trans (Function.update_self ..)⟩

/-- A packet that is not flagged can be let through: both visitors have found no rule before
either stores. -/
theorem exists_doWork_clean {p : Nat} (hp : p < n) (hsmall : n ≤ 128)
    (hclean : ¬Flagged table (sipBuff p)) :
    ∃ after, DoWork table n sipBuff after ∧ after p = 0 := by
  have hp' : p < 128 := hp.trans_le hsmall
  have hrules : Rules table (written table sipBuff fun _ ↦ 0) := rules_written
  have hclean : ¬Flagged table (written table sipBuff (fun _ ↦ 0) (.packet p)) :=
    (written_packet hp').symm ▸ hclean
  have hfirst := runs_clean (packetBuffIndex_first (hp'.trans (by decide))) hp hrules hclean
  by_cases hlow : 16 ≤ p
  · have hsecond := runs_clean (packetBuffIndex_second (hp'.trans (by decide)) hlow) hp hrules
      hclean
    obtain ⟨after, hafter, hval⟩ := exists_doWork hp hsmall hfirst
      (Or.inl ⟨hlow, hsecond.trans (.put .refl)⟩) (.put .refl)
    exact ⟨after, hafter, hval.trans (Function.update_self ..)⟩
  · obtain ⟨after, hafter, hval⟩ := exists_doWork hp hsmall hfirst
      (Or.inr ⟨Nat.lt_of_not_le hlow, rfl⟩) (.put .refl)
    exact ⟨after, hafter, hval.trans (Function.update_self ..)⟩

/-- Where 0 is a word of the table, a packet with two visitors can be dropped: the second finds
the 0 that the first has left. -/
theorem exists_doWork_again {p : Nat} (hp : p < n) (hsmall : n ≤ 128) (hlow : 16 ≤ p)
    (hclean : ¬Flagged table (sipBuff p)) (hzero : Word table 0) :
    ∃ after, DoWork table n sipBuff after ∧ after p = 1 := by
  have hp' : p < 128 := hp.trans_le hsmall
  have hrules : Rules table (written table sipBuff fun _ ↦ 0) := rules_written
  have hfirst := runs_clean (packetBuffIndex_first (hp'.trans (by decide))) hp hrules
    ((written_packet hp').symm ▸ hclean)
  have hsecond := runs_flagged (packetBuffIndex_second (hp'.trans (by decide)) hlow) hp
    (hrules.update p 0) (Or.inr (by rwa [Function.update_self]))
  obtain ⟨after, hafter, hval⟩ := exists_doWork hp hsmall (hfirst.trans (.put .refl))
    (Or.inl ⟨hlow, hsecond⟩) .refl
  exact ⟨after, hafter, hval.trans (Function.update_self ..)⟩

/-! ### The condition -/

/-- More than 128 packets are read past the end of the buffer. -/
theorem le_of_agree (h : Agree table n sipBuff) : n ≤ 128 := by
  by_contra hbig
  have hidx : packetBuffIndex (0, 8) < n := Nat.lt_of_not_le hbig
  have hin : InBuffers (.packet 128) :=
    h.stays (fun _ ↦ 0) [] _ rfl _ _ (access_packetMatching hidx)
  exact absurd hin (Nat.lt_irrefl 128)

private theorem flagged_iff_of_agree (h : Agree table n sipBuff) {p : Nat} (hp : p < n) :
    Flagged table (sipBuff p) ↔ Occurs table (sipBuff p) := by
  have hsmall := le_of_agree h
  constructor
  · intro hflag
    obtain ⟨after, hafter, hval⟩ := exists_doWork_flagged hp hsmall hflag
    exact (h.drops after hafter p hp).1.mp (by rw [hval]; decide)
  · intro hoccurs
    by_contra hclean
    obtain ⟨after, hafter, hval⟩ := exists_doWork_clean hp hsmall hclean
    exact (h.drops after hafter p hp).1.mpr hoccurs hval

/-- For every table and every batch: host and device agree, in every order of the work-items,
exactly when the batch fits the device buffer, the words that the device compares with tell the
addresses of the table apart from the others, and no address outside the table is looked at
again after it became 0. -/
theorem agree_iff (table : Nat → BitVec 64) (n : Nat) (sipBuff : Nat → BitVec 32) :
    Agree table n sipBuff ↔ n ≤ 128 ∧ ∀ p < n,
      (Flagged table (sipBuff p) ↔ Occurs table (sipBuff p)) ∧
      (16 ≤ p → Occurs table (sipBuff p) ∨ ¬Word table 0) := by
  constructor
  · intro h
    refine ⟨le_of_agree h, fun p hp ↦ ⟨flagged_iff_of_agree h hp, fun hlow ↦ ?_⟩⟩
    by_contra hnot
    obtain ⟨hoccurs, hzero⟩ := not_or.mp hnot
    have hclean := mt (flagged_iff_of_agree h hp).mp hoccurs
    obtain ⟨after, hafter, hval⟩ := exists_doWork_again hp (le_of_agree h) hlow hclean
      (not_not.mp hzero)
    exact hoccurs ((h.drops after hafter p hp).1.mp (by rw [hval]; decide))
  · rintro ⟨hsmall, h⟩
    exact agree_of_flagged hsmall (fun p hp ↦ (h p hp).1) fun p hp ↦ (h p hp).2

/-- One packet, from the last address of a table: the device compares with the first half of
the entries only. -/
theorem not_agree_lastEntry : ¬∀ (table : Nat → BitVec 64) (n : Nat) (sipBuff : Nat → BitVec 32),
    1 ≤ n → n ≤ 1024 → Agree table n sipBuff := by
  intro hall
  have h := hall (fun i ↦ if i = 2047 then 7 else 5) 1 (fun _ ↦ 7) (by decide) (by decide)
  have hoccurs : Occurs (fun i ↦ if i = 2047 then 7 else 5) 7 := ⟨2047, by decide, rfl⟩
  rcases (flagged_iff_of_agree h Nat.one_pos).mpr hoccurs with hone | ⟨j, hj, hword⟩
  · exact absurd hone (by decide)
  · rw [ruleWord, if_neg (by omega)] at hword
    rcases Nat.mod_two_eq_zero_or_one j with hmod | hmod
    · rw [hmod] at hword
      exact absurd hword (by decide)
    · rw [hmod] at hword
      exact absurd hword (by decide)

end QHGPU.Firewall
