import QHGPU.Library.Phases
import QHGPU.Library.Scan
import QHGPU.Services.RadixHistogram

/-!
# Scans

The kernel `scanhistograms` replaces every part of a buffer by its exclusive prefix sums and
stores the sum of the part.
-/

namespace QHGPU.Radix

open WorkItems (Prog Launch Stays Plan load store barrier)
open Scan (Turn sweep up down left right)

variable {V : Type} [AddCommMonoid V] {histo sums : Buffer} {r : NDRange} {e parts : Nat}
  {m : Place → V} {ig t : Nat}

/-- Groups of `2 ^ e` items, one for each part of `2 ^ (e + 1)` entries. -/
structure ScanRange (r : NDRange) (e parts : Nat) : Prop where
  localSize : r.localSize = 2 ^ e
  globalSize : r.globalSize = parts * 2 ^ e

/-- A part of the buffer. -/
def part (histo : Buffer) (e : Nat) (m : Place → V) (gr j : Nat) : V :=
  m (.cell histo (gr * 2 ^ (e + 1) + j))

/-- What an item of `scanhistograms` stores to in a phase. -/
def ScanOwns (histo sums : Buffer) (e t ig : Nat) : Place → Prop
  | .cell b k => b = histo ∧ (k = 2 * ig ∨ k = 2 * ig + 1) ∨
    b = sums ∧ ig % 2 ^ e = 0 ∧ k = ig / 2 ^ e
  | .cache gr c => gr = ig / 2 ^ e ∧ Turn (e + 1) t (ig % 2 ^ e) c

/-- The memory in the phases of `scanhistograms`. -/
def scanSnap (histo sums : Buffer) (e parts : Nat) (m : Place → V) (t : Nat) : Place → V
  | .cell b k =>
    if b = histo then
      if 2 * (e + 1) + 2 ≤ t ∧ k < parts * 2 ^ (e + 1) then
        ∑ i ∈ Finset.range (k % 2 ^ (e + 1)), part histo e m (k / 2 ^ (e + 1)) i
      else m (.cell b k)
    else if b = sums then
      if e + 2 ≤ t ∧ k < parts then ∑ i ∈ Finset.range (2 ^ (e + 1)), part histo e m k i
      else m (.cell b k)
    else m (.cell b k)
  | .cache gr c =>
    if 0 < t ∧ gr < parts ∧ c < 2 ^ (e + 1) then sweep (part histo e m gr) (e + 1) t c
    else m (.cache gr c)

private theorem ScanOwns.cell_eq {t' i j k : Nat} {b : Buffer} (hne : histo ≠ sums)
    (h : ScanOwns histo sums e t i (.cell b k)) (h' : ScanOwns histo sums e t' j (.cell b k)) :
    i = j := by
  rcases h with ⟨rfl, h⟩ | ⟨rfl, hmod, h⟩
  · rcases h' with ⟨_, h'⟩ | ⟨heq, _⟩
    · omega
    · exact absurd heq hne
  · rcases h' with ⟨heq, _⟩ | ⟨_, hmod', h'⟩
    · exact absurd heq.symm hne
    · rw [← Nat.div_add_mod i (2 ^ e), ← Nat.div_add_mod j (2 ^ e), hmod, hmod', ← h, ← h']

private theorem ScanOwns.eq {i j : Nat} {l : Place} (hne : histo ≠ sums)
    (h : ScanOwns histo sums e t i l) (h' : ScanOwns histo sums e t j l) : i = j := by
  cases l with
  | cell b k => exact h.cell_eq hne h'
  | cache gr c =>
    rw [← Nat.div_add_mod i (2 ^ e), ← Nat.div_add_mod j (2 ^ e), ← h.1, ← h'.1, h.2.eq h'.2]

private theorem scanSnap_succ {l : Place} (hr : ScanRange r e parts)
    (hnone : ∀ ig : Fin r.globalSize, ¬ScanOwns histo sums e t ig l) :
    scanSnap histo sums e parts m (t + 1) l = scanSnap histo sums e parts m t l := by
  have hglobal := hr.globalSize
  have hpow : 2 ^ (e + 1) = 2 * 2 ^ e := Nat.pow_succ'
  cases l with
  | cell b k =>
    rw [scanSnap, scanSnap]
    by_cases hb : b = histo
    · rw [if_pos hb, if_pos hb]
      by_cases hk : k < parts * 2 ^ (e + 1)
      · rw [hpow, Nat.mul_left_comm, ← hglobal] at hk
        exact absurd (Or.inl ⟨hb, by dsimp only; omega⟩) (hnone ⟨k / 2, by omega⟩)
      · rw [if_neg fun h ↦ hk h.2, if_neg fun h ↦ hk h.2]
    · rw [if_neg hb, if_neg hb]
      by_cases hb' : b = sums
      · rw [if_pos hb', if_pos hb']
        by_cases hk : k < parts
        · have hlt : k * 2 ^ e < r.globalSize := by
            rw [hglobal]
            exact (Nat.mul_lt_mul_right (Nat.two_pow_pos e)).mpr hk
          refine absurd (Or.inr ⟨hb', ?_, ?_⟩) (hnone ⟨k * 2 ^ e, hlt⟩)
          · exact Nat.mul_mod_left k _
          · exact (Nat.mul_div_cancel k (Nat.two_pow_pos e)).symm
        · rw [if_neg fun h ↦ hk h.2, if_neg fun h ↦ hk h.2]
      · rw [if_neg hb', if_neg hb']
  | cache gr c =>
    rw [scanSnap, scanSnap]
    by_cases hin : gr < parts ∧ c < 2 ^ (e + 1)
    · have hturn (it : Nat) (hit : it < 2 ^ e) : ¬Turn (e + 1) t it c := by
        intro h
        refine hnone ⟨gr * 2 ^ e + it, hglobal ▸ entry_lt hin.1 hit⟩ ⟨?_, ?_⟩
        · exact (entry_div gr hit).symm
        · rwa [entry_mod gr hit]
      rcases Nat.eq_zero_or_pos t with rfl | ht
      · exact absurd (Scan.turn_load c) (hturn _ (by have := hin.2; omega))
      · rw [if_pos ⟨t.succ_pos, hin⟩, if_pos ⟨ht, hin⟩, Scan.sweep_succ ht hin.2 hturn]
    · rw [if_neg fun h ↦ hin h.2, if_neg fun h ↦ hin h.2]

/-- Who stores what when in `scanhistograms`. -/
def scanPlan (histo sums : Buffer) (m : Place → V) (hne : histo ≠ sums)
    (hr : ScanRange r e parts) : Plan (Fin r.globalSize) Nat Place V where
  group := r.group
  owns t ig := ScanOwns histo sums e t ig
  snap := scanSnap histo sums e parts m
  last := 2 * (e + 1) + 2
  eq_of_owns h h' := Fin.ext (h.eq hne h')
  group_eq {t t' i j l} h h' := by
    cases l with
    | cell b k => rw [Fin.ext (h.cell_eq hne h')]
    | cache gr c => rw [NDRange.group, NDRange.group, hr.localSize, ← h.1, ← h'.1]
  snap_succ := scanSnap_succ hr

/-- What the kernel accesses is there. -/
structure ScanBuffers (histo sums : Buffer) (e parts : Nat) (ok : Place → Prop) : Prop where
  cache : ∀ gr, ∀ c < 2 ^ (e + 1), ok (.cache gr c)
  histo : ∀ k < parts * 2 ^ (e + 1), ok (.cell histo k)
  sums : ∀ k < parts, ok (.cell sums k)

section

variable {hne : histo ≠ sums} {hr : ScanRange r e parts} {ok : Place → Prop}
  {ig : Fin r.globalSize} {c s k : Nat} {v : Place → V}

private theorem group_lt (hr : ScanRange r e parts) (ig : Fin r.globalSize) : ig / 2 ^ e < parts :=
  Nat.div_lt_of_lt_mul (Nat.mul_comm _ _ ▸ ig.isLt.trans_eq hr.globalSize)

private theorem snap_cache (ht : 0 < t) (hc : c < 2 ^ (e + 1)) :
    (scanPlan histo sums m hne hr).snap t (.cache (ig / 2 ^ e) c) =
      sweep (part histo e m (ig / 2 ^ e)) (e + 1) t c :=
  if_pos ⟨ht, group_lt hr ig, hc⟩

/-- The entries of the buffers change at the end of the sweeps only. -/
theorem snap_cell {b : Buffer} (h : e + 2 ≤ t + 1 → e + 2 ≤ t)
    (h' : 2 * (e + 1) + 2 ≤ t + 1 → 2 * (e + 1) + 2 ≤ t) :
    (scanPlan histo sums m hne hr).snap (t + 1) (.cell b k) =
      (scanPlan histo sums m hne hr).snap t (.cell b k) := by
  have hiff : e + 2 ≤ t + 1 ↔ e + 2 ≤ t := ⟨h, fun h ↦ h.trans t.le_succ⟩
  have hiff' : 2 * (e + 1) + 2 ≤ t + 1 ↔ 2 * (e + 1) + 2 ≤ t := ⟨h', fun h ↦ h.trans t.le_succ⟩
  change scanSnap histo sums e parts m (t + 1) (.cell b k) =
    scanSnap histo sums e parts m t (.cell b k)
  simp only [scanSnap, hiff, hiff']

private theorem snap_histo (h : 2 * (e + 1) + 2 ≤ t + 1 → 2 * (e + 1) + 2 ≤ t) :
    (scanPlan histo sums m hne hr).snap (t + 1) (.cell histo k) =
      (scanPlan histo sums m hne hr).snap t (.cell histo k) := by
  have hiff : 2 * (e + 1) + 2 ≤ t + 1 ↔ 2 * (e + 1) + 2 ≤ t := ⟨h, fun h ↦ h.trans t.le_succ⟩
  change scanSnap histo sums e parts m (t + 1) (.cell histo k) =
    scanSnap histo sums e parts m t (.cell histo k)
  simp only [scanSnap, hiff]
  rfl

private theorem snap_sums (h : e + 2 ≤ t + 1 → e + 2 ≤ t) :
    (scanPlan histo sums m hne hr).snap (t + 1) (.cell sums k) =
      (scanPlan histo sums m hne hr).snap t (.cell sums k) := by
  have hiff : e + 2 ≤ t + 1 ↔ e + 2 ≤ t := ⟨h, fun h ↦ h.trans t.le_succ⟩
  change scanSnap histo sums e parts m (t + 1) (.cell sums k) =
    scanSnap histo sums e parts m t (.cell sums k)
  simp only [scanSnap, if_neg hne.symm, hiff]

/-- An entry that no item changes in the phase can be read by the items of its group. -/
theorem sees_cache (hnone : ∀ it, ¬Turn (e + 1) t it c) :
    (scanPlan histo sums m hne hr).Sees ig t (.cache (ig / 2 ^ e) c) := by
  refine ⟨?_, fun j hj ↦ absurd hj.2 (hnone _)⟩
  intro t' j hj
  change r.group j = r.group ig
  rw [NDRange.group, NDRange.group, hr.localSize]
  exact hj.1.symm

/-- The memory of an item after its step in round `s` up. -/
def upView (histo : Buffer) (e : Nat) (m : Place → V) (ig s : Nat) (v : Place → V) :
    Place → V :=
  if ig % 2 ^ e < 2 ^ (e - s) then
    Function.update v (.cache (ig / 2 ^ e) (right s (ig % 2 ^ e)))
      (up (part histo e m (ig / 2 ^ e)) (s + 1) (right s (ig % 2 ^ e)))
  else v

private theorem keeps_upStep (hbuf : ScanBuffers histo sums e parts ok) (hs : s < e + 1) :
    (scanPlan histo sums m hne hr).Keeps ok ig (fun t v _ ↦ t = s + 1 ∧
      v = upView histo e m ig s ((scanPlan histo sums m hne hr).snap (s + 1))) (s + 1)
      ((scanPlan histo sums m hne hr).snap (s + 1))
      (upStep (ig / 2 ^ e) (ig % 2 ^ e) (2 ^ (e - s)) (2 ^ s)) := by
  have hsub : e + 1 - (s + 1) = e - s := by omega
  rw [upStep, upView]
  split
  · next hit =>
    have hturn : Turn (e + 1) (s + 1) (ig % 2 ^ e) (right s (ig % 2 ^ e)) :=
      Scan.turn_up hs (by rwa [hsub]) (Scan.right_succ _ _)
    have hright : right s (ig % 2 ^ e) < 2 ^ (e + 1) := Scan.right_lt hs (by rwa [hsub])
    have hleft := (Scan.left_lt_right s (ig % 2 ^ e)).trans hright
    have hown : (scanPlan histo sums m hne hr).owns (s + 1) ig
        (.cache (ig / 2 ^ e) (right s (ig % 2 ^ e))) := ⟨rfl, hturn⟩
    refine ⟨hbuf.cache _ _ hright, Plan.sees_of_owns hown, hbuf.cache _ _ hleft,
      sees_cache fun _ ↦ Scan.not_turn_left hs, hbuf.cache _ _ hright, hown, rfl, ?_⟩
    rw [Scan.up_right, ← Scan.sweep_up hs, ← Scan.sweep_up hs, ← snap_cache s.succ_pos hright,
      ← snap_cache s.succ_pos hleft]
    rfl
  · exact ⟨rfl, rfl⟩

/-- After the round everything is as the next one finds it, unless it was the last. -/
theorem settled_upView (hs : s < e) : (scanPlan histo sums m hne hr).Settled ig (s + 1)
    (upView histo e m ig s ((scanPlan histo sums m hne hr).snap (s + 1))) := by
  have hsub : e + 1 - (s + 1) = e - s := by omega
  intro l hl
  cases l with
  | cell b k =>
    rw [snap_cell (by omega) (by omega), upView]
    split
    · exact Function.update_of_ne (by simp) ..
    · rfl
  | cache gr c =>
    obtain ⟨rfl, hturn⟩ := hl
    rw [Turn, if_neg s.succ_ne_zero, if_pos (by omega), hsub, Nat.add_sub_cancel,
      ← Scan.right_succ] at hturn
    obtain ⟨hit, hc⟩ := hturn
    obtain rfl := Nat.succ.inj hc
    have hlt := Scan.right_lt (q := e + 1) (by omega) (hsub.symm ▸ hit)
    rw [upView, if_pos hit, Function.update_self, snap_cache (s + 1).succ_pos hlt,
      Scan.sweep_up (by omega)]

private theorem keeps_upSweep (hbuf : ScanBuffers histo sums e parts ok) (hs : s < e + 1)
    (hsettled : (scanPlan histo sums m hne hr).Settled ig s v) :
    (scanPlan histo sums m hne hr).Keeps ok ig (fun t v decale ↦ t = e + 1 ∧
      v = upView histo e m ig e ((scanPlan histo sums m hne hr).snap (e + 1)) ∧
      decale = 2 ^ (e + 1)) s v
      (upSweep (ig / 2 ^ e) (ig % 2 ^ e) (2 ^ (e - s)) (2 ^ s)) := by
  obtain ⟨d, hd⟩ : ∃ d, e - s = d := ⟨_, rfl⟩
  induction d generalizing s v with
  | zero =>
    obtain rfl : s = e := by omega
    rw [upSweep, if_pos (Nat.two_pow_pos _), WorkItems.barrier_bind, Plan.keeps_sync,
      Plan.keeps_bind]
    refine ⟨by change s < 2 * (s + 1) + 2; omega, hsettled, (keeps_upStep hbuf hs).mono ?_⟩
    rintro _ _ _ ⟨rfl, rfl⟩
    rw [Nat.sub_self, upSweep, if_neg (by decide)]
    exact ⟨rfl, rfl, (Nat.pow_succ ..).symm⟩
  | succ d ih =>
    have hlt : s < e := by omega
    rw [upSweep, if_pos (Nat.two_pow_pos _), WorkItems.barrier_bind, Plan.keeps_sync,
      Plan.keeps_bind]
    refine ⟨by change s < 2 * (e + 1) + 2; omega, hsettled, (keeps_upStep hbuf hs).mono ?_⟩
    rintro _ _ _ ⟨rfl, rfl⟩
    have hhalf : 2 ^ (e - s) / 2 = 2 ^ (e - (s + 1)) := by
      rw [show e - s = e - (s + 1) + 1 by omega, Nat.pow_succ, Nat.mul_div_cancel _ Nat.two_pos]
    rw [hhalf, ← Nat.pow_succ]
    exact ih (by omega) (settled_upView hlt) (by omega)

/-- The first item clears the last entry in the phase of the last round up. -/
theorem keeps_clearLast (hbuf : ScanBuffers histo sums e parts ok) :
    (scanPlan histo sums m hne hr).Keeps ok ig
      (fun t v _ ↦ t = e + 1 ∧ (scanPlan histo sums m hne hr).Settled ig (e + 1) v) (e + 1)
      (upView histo e m ig e ((scanPlan histo sums m hne hr).snap (e + 1)))
      (clearLast sums (ig / 2 ^ e) (ig % 2 ^ e) (2 ^ (e + 1))) := by
  have hpos : 0 < 2 ^ (e + 1) := Nat.two_pow_pos _
  have hlast : right e 0 = 2 ^ (e + 1) - 1 := by
    rw [right, Nat.pow_succ]
  rw [clearLast, upView, Nat.sub_self, Nat.pow_zero]
  by_cases hit : ig.val % 2 ^ e = 0
  · have hturn : Turn (e + 1) (e + 1) (ig % 2 ^ e) (right e (ig % 2 ^ e)) :=
      Scan.turn_up e.lt_succ_self (by rw [hit]; exact Nat.two_pow_pos _) (Scan.right_succ _ _)
    rw [if_pos hit, if_pos (by omega)]
    rw [hit] at hturn ⊢
    rw [hlast] at hturn ⊢
    have hown : (scanPlan histo sums m hne hr).owns (e + 1) ig
        (.cache (ig / 2 ^ e) (2 ^ (e + 1) - 1)) := ⟨rfl, hit.symm ▸ hturn⟩
    have hsum : (scanPlan histo sums m hne hr).owns (e + 1) ig (.cell sums (ig / 2 ^ e)) :=
      Or.inr ⟨rfl, hit, rfl⟩
    have hcache := hbuf.cache (ig / 2 ^ e) (2 ^ (e + 1) - 1) (by omega)
    refine ⟨hcache, Plan.sees_of_owns hown, hbuf.sums _ (group_lt hr ig), hsum, hcache, hown, rfl,
      ?_⟩
    rw [Function.update_self]
    intro l hl
    cases l with
    | cell b k =>
      rw [Function.update_of_ne (by simp)]
      rcases hl with ⟨rfl, _⟩ | ⟨rfl, _, rfl⟩
      · rw [Function.update_of_ne fun h ↦ hne (Place.cell.inj h).1,
          Function.update_of_ne (by simp)]
        exact (snap_histo (t := e + 1) (by omega)).symm
      · rw [Function.update_self, Scan.up_last]
        change _ = scanSnap histo b e parts m (e + 2) (.cell b (ig / 2 ^ e))
        rw [scanSnap, if_neg hne.symm, if_pos rfl, if_pos ⟨Nat.le_refl _, group_lt hr ig⟩]
    | cache gr c =>
      obtain ⟨rfl, hturn'⟩ := hl
      rw [Turn, if_neg (Nat.succ_ne_zero e), if_pos (Nat.le_refl _), Nat.add_sub_cancel,
        ← Scan.right_succ, hit, hlast] at hturn'
      obtain rfl : c = 2 ^ (e + 1) - 1 := Nat.succ.inj hturn'.2
      rw [Function.update_self, snap_cache (Nat.succ_pos _) (by omega),
        show (e + 1).succ = e + 1 + 1 + 0 from rfl, Scan.sweep_down (Nat.zero_le _), Scan.down,
        if_pos (by omega)]
  · rw [if_neg hit, if_neg (by omega)]
    refine ⟨rfl, ?_⟩
    intro l hl
    cases l with
    | cell b k =>
      rcases hl with ⟨rfl, _⟩ | ⟨rfl, hzero, _⟩
      · exact (snap_histo (by omega)).symm
      · exact absurd hzero hit
    | cache gr c =>
      obtain ⟨rfl, hturn⟩ := hl
      rw [Turn, if_neg (Nat.succ_ne_zero e), if_pos (Nat.le_refl _), Nat.sub_self, Nat.pow_zero]
        at hturn
      omega

/-- The memory of an item after its step in round `k` down. -/
def downView (histo : Buffer) (e : Nat) (m : Place → V) (ig k : Nat) (v : Place → V) :
    Place → V :=
  if ig % 2 ^ e < 2 ^ k then
    Function.update (Function.update v
      (.cache (ig / 2 ^ e) (left (e - k) (ig % 2 ^ e)))
      (down (part histo e m (ig / 2 ^ e)) (e + 1) (k + 1) (left (e - k) (ig % 2 ^ e))))
      (.cache (ig / 2 ^ e) (right (e - k) (ig % 2 ^ e)))
      (down (part histo e m (ig / 2 ^ e)) (e + 1) (k + 1) (right (e - k) (ig % 2 ^ e)))
  else v

private theorem keeps_downStep (hbuf : ScanBuffers histo sums e parts ok) (hk : k < e + 1) :
    (scanPlan histo sums m hne hr).Keeps ok ig (fun t v _ ↦ t = e + 1 + 1 + k ∧
      v = downView histo e m ig k ((scanPlan histo sums m hne hr).snap (e + 1 + 1 + k)))
      (e + 1 + 1 + k) ((scanPlan histo sums m hne hr).snap (e + 1 + 1 + k))
      (downStep (ig / 2 ^ e) (ig % 2 ^ e) (2 ^ k) (2 ^ (e - k))) := by
  have hsub : e + 1 - (k + 1) = e - k := by omega
  rw [downStep, downView]
  split
  · next hit =>
    have hright : right (e - k) (ig % 2 ^ e) < 2 ^ (e + 1) :=
      Scan.right_lt (by omega) (by rwa [show e + 1 - (e - k + 1) = k by omega])
    have hleft := (Scan.left_lt_right (e - k) (ig % 2 ^ e)).trans hright
    have hturn : Turn (e + 1) (e + 1 + 1 + k) (ig % 2 ^ e) (left (e - k) (ig % 2 ^ e)) :=
      Scan.turn_down hk hit (Or.inl (by rw [hsub]; exact Scan.left_succ _ _))
    have hturn' : Turn (e + 1) (e + 1 + 1 + k) (ig % 2 ^ e) (right (e - k) (ig % 2 ^ e)) :=
      Scan.turn_down hk hit (Or.inr (by rw [hsub]; exact Scan.right_succ _ _))
    have hown : (scanPlan histo sums m hne hr).owns (e + 1 + 1 + k) ig
        (.cache (ig / 2 ^ e) (left (e - k) (ig % 2 ^ e))) := ⟨rfl, hturn⟩
    have hown' : (scanPlan histo sums m hne hr).owns (e + 1 + 1 + k) ig
        (.cache (ig / 2 ^ e) (right (e - k) (ig % 2 ^ e))) := ⟨rfl, hturn'⟩
    have hokl := hbuf.cache (ig / 2 ^ e) _ hleft
    have hokr := hbuf.cache (ig / 2 ^ e) _ hright
    have hdifferent : Place.cache (ig / 2 ^ e) (right (e - k) (ig % 2 ^ e)) ≠
        .cache (ig / 2 ^ e) (left (e - k) (ig % 2 ^ e)) :=
      fun h ↦ (Scan.left_lt_right _ _).ne' (Place.cache.inj h).2
    have hvl := Scan.down_left (x := part histo e m (ig / 2 ^ e)) hk (ig % 2 ^ e)
    have hvr := Scan.down_right (x := part histo e m (ig / 2 ^ e)) hk (ig % 2 ^ e)
    have hsnap {c : Nat} (hc : c < 2 ^ (e + 1)) :
        (scanPlan histo sums m hne hr).snap (e + 1 + 1 + k) (.cache (ig / 2 ^ e) c) =
          down (part histo e m (ig / 2 ^ e)) (e + 1) k c := by
      rw [snap_cache (by omega) hc, Scan.sweep_down hk.le]
    rw [hsub] at hvl hvr
    refine ⟨hokl, Plan.sees_of_owns hown, hokr, Plan.sees_of_owns hown', hokl, hown, hokr,
      Plan.sees_of_owns hown', hokr, hown', rfl, ?_⟩
    rw [show 2 ^ (e - k) * (2 * (ig % 2 ^ e) + 1) - 1 = left (e - k) (ig % 2 ^ e) from rfl,
      show 2 ^ (e - k) * (2 * (ig % 2 ^ e) + 2) - 1 = right (e - k) (ig % 2 ^ e) from rfl,
      Function.update_of_ne hdifferent, hsnap hleft, hsnap hright, hvl, hvr]
  · exact ⟨rfl, rfl⟩

private theorem settled_downView (hk : k < e + 1) :
    (scanPlan histo sums m hne hr).Settled ig (e + 1 + 1 + k)
      (downView histo e m ig k ((scanPlan histo sums m hne hr).snap (e + 1 + 1 + k))) := by
  have hsub : e + 1 - (k + 1) = e - k := by omega
  intro l hl
  cases l with
  | cell b k' =>
    rw [snap_cell (by omega) (by omega), downView]
    split
    · rw [Function.update_of_ne (by simp), Function.update_of_ne (by simp)]
    · rfl
  | cache gr c =>
    obtain ⟨rfl, hturn⟩ := hl
    rw [Turn, if_neg (by omega), if_neg (by omega), if_pos (by omega), Nat.add_sub_cancel_left,
      show 2 * (e + 1) - (e + 1 + 1 + k) = e - k by omega, ← Scan.right_succ, ← Scan.left_succ]
      at hturn
    obtain ⟨hit, hc⟩ := hturn
    have hright : right (e - k) (ig % 2 ^ e) < 2 ^ (e + 1) :=
      Scan.right_lt (by omega) (by rwa [show e + 1 - (e - k + 1) = k by omega])
    have hlt := Scan.left_lt_right (e - k) (ig % 2 ^ e)
    rw [downView, if_pos hit]
    rcases hc with hc | hc
    · obtain rfl := Nat.succ.inj hc
      rw [Function.update_of_ne fun h ↦ hlt.ne (Place.cache.inj h).2, Function.update_self,
        snap_cache (by omega) (hlt.trans hright), Nat.add_assoc (e + 1 + 1), Scan.sweep_down hk]
    · obtain rfl := Nat.succ.inj hc
      rw [Function.update_self, snap_cache (by omega) hright, Nat.add_assoc (e + 1 + 1),
        Scan.sweep_down hk]

private theorem keeps_downSweep (hbuf : ScanBuffers histo sums e parts ok) (hk : k ≤ e + 1)
    (hsettled : (scanPlan histo sums m hne hr).Settled ig (e + 1 + k) v) :
    (scanPlan histo sums m hne hr).Keeps ok ig (fun t v _ ↦ t = 2 * (e + 1) ∧
      (scanPlan histo sums m hne hr).Settled ig (2 * (e + 1)) v) (e + 1 + k) v
      (downSweep (ig / 2 ^ e) (ig % 2 ^ e) (2 ^ (e + 1)) (2 ^ k) (2 ^ (e + 1 - k))) := by
  obtain ⟨d, hd⟩ : ∃ d, e + 1 - k = d := ⟨_, rfl⟩
  induction d generalizing k v with
  | zero =>
    obtain rfl : k = e + 1 := by omega
    rw [downSweep, if_neg fun h ↦ lt_irrefl _ h.2]
    rw [← Nat.two_mul] at hsettled ⊢
    exact ⟨rfl, hsettled⟩
  | succ d ih =>
    have hlt : k < e + 1 := by omega
    have hpow : 2 ^ k < 2 ^ (e + 1) := Nat.pow_lt_pow_right (by decide) hlt
    have hhalf : 2 ^ (e + 1 - k) / 2 = 2 ^ (e - k) := by
      rw [show e + 1 - k = e - k + 1 by omega, Nat.pow_succ, Nat.mul_div_cancel _ Nat.two_pos]
    rw [downSweep, if_pos ⟨Nat.two_pow_pos k, hpow⟩, hhalf, WorkItems.barrier_bind,
      Plan.keeps_sync, show e + 1 + k + 1 = e + 1 + 1 + k by omega, Plan.keeps_bind]
    refine ⟨by change e + 1 + k < 2 * (e + 1) + 2; omega, hsettled,
      (keeps_downStep hbuf hlt).mono ?_⟩
    rintro _ _ _ ⟨rfl, rfl⟩
    rw [← Nat.pow_succ, show e - k = e + 1 - (k + 1) by omega,
      show e + 1 + 1 + k = e + 1 + (k + 1) by omega]
    have hnext : (scanPlan histo sums m hne hr).Settled ig (e + 1 + 1 + k) _ :=
      settled_downView hlt
    rw [show e + 1 + 1 + k = e + 1 + (k + 1) by omega] at hnext
    exact ih (by omega) hnext (by omega)

private theorem snap_zero : (scanPlan histo sums m hne hr).snap 0 = m := by
  funext l
  cases l with
  | cell b k =>
    change scanSnap histo sums e parts m 0 (.cell b k) = m (.cell b k)
    have h : ¬2 * (e + 1) + 2 ≤ 0 := Nat.not_succ_le_zero _
    have h' : ¬e + 2 ≤ 0 := Nat.not_succ_le_zero _
    simp only [scanSnap, h, h', false_and, if_false, ite_self]
  | cache gr c => rfl

omit [AddCommMonoid V] in
/-- The entries of an item in its part. -/
theorem part_eq (histo : Buffer) (e : Nat) (m : Place → V) (ig d : Nat) :
    part histo e m (ig / 2 ^ e) (2 * (ig % 2 ^ e) + d) = m (.cell histo (2 * ig + d)) := by
  have := Nat.div_add_mod' ig (2 ^ e)
  rw [part, Nat.pow_succ, ← Nat.mul_assoc]
  congr 2
  omega

/-- The sums before the entries of an item. -/
theorem snap_sum (ht : 2 * (e + 1) + 2 ≤ t) {d : Nat} (hd : d < 2) :
    (scanPlan histo sums m hne hr).snap t (.cell histo (2 * ig + d)) =
      ∑ i ∈ Finset.range (2 * (ig % 2 ^ e) + d), part histo e m (ig / 2 ^ e) i := by
  have hmod := Nat.mod_lt ig.val (Nat.two_pow_pos e)
  have hlt : 2 * (ig.val % 2 ^ e) + d < 2 ^ (e + 1) := by
    rw [Nat.pow_succ]
    omega
  have hcell : 2 * ig.val + d = ig / 2 ^ e * 2 ^ (e + 1) + (2 * (ig % 2 ^ e) + d) := by
    have := Nat.div_add_mod' ig.val (2 ^ e)
    rw [Nat.pow_succ, ← Nat.mul_assoc]
    omega
  change scanSnap histo sums e parts m t (.cell histo (2 * ig + d)) = _
  rw [hcell, scanSnap, if_pos rfl, if_pos ⟨ht, entry_lt (group_lt hr ig) hlt⟩, entry_div _ hlt,
    entry_mod _ hlt]

private theorem keeps_scanhistograms (hbuf : ScanBuffers histo sums e parts ok) :
    (scanPlan histo sums m hne hr).Keeps ok ig ((scanPlan histo sums m hne hr).Done ig) 0 m
      (scanhistograms histo sums r ig) := by
  have hid : r.localId ig = ig.val % 2 ^ e := by rw [NDRange.localId, hr.localSize]
  have hgr : r.group ig = ig.val / 2 ^ e := by rw [NDRange.group, hr.localSize]
  have hn : r.localSize * 2 = 2 ^ (e + 1) := by rw [hr.localSize, Nat.pow_succ]
  have hmod := Nat.mod_lt ig.val (Nat.two_pow_pos e)
  have hpow : 2 ^ (e + 1) = 2 * 2 ^ e := Nat.pow_succ'
  have hlt {d : Nat} (hd : d < 2) : 2 * ig.val + d < parts * 2 ^ (e + 1) := by
    have := ig.isLt.trans_eq hr.globalSize
    rw [hpow, Nat.mul_left_comm]
    omega
  have hcell {t d : Nat} (hd : d < 2) :
      (scanPlan histo sums m hne hr).owns t ig (.cell histo (2 * ig + d)) :=
    Or.inl ⟨rfl, by omega⟩
  have hcache {d : Nat} (hd : d < 2) : (scanPlan histo sums m hne hr).owns 0 ig
      (.cache (ig / 2 ^ e) (2 * (ig % 2 ^ e) + d)) := by
    refine ⟨rfl, ?_⟩
    rw [Turn, if_pos rfl]
    omega
  have hokc {d : Nat} (hd : d < 2) := hbuf.cache (ig / 2 ^ e) (2 * (ig % 2 ^ e) + d) (by omega)
  have hokh {d : Nat} (hd : d < 2) := hbuf.histo (2 * ig + d) (hlt hd)
  rw [scanhistograms, hid, hgr, hn, hpow, Nat.mul_div_cancel_left _ Nat.two_pos,
    ← hpow]
  refine ⟨hokh Nat.two_pos, Plan.sees_of_owns (hcell Nat.two_pos), hokc Nat.two_pos,
    hcache Nat.two_pos, hokh Nat.one_lt_two, Plan.sees_of_owns (hcell Nat.one_lt_two),
    hokc Nat.one_lt_two, hcache Nat.one_lt_two, ?_⟩
  rw [Function.update_of_ne (by simp)]
  change Plan.Keeps _ _ _ _ _ _ (upSweep _ _ (2 ^ (e - 0)) (2 ^ 0) >>= _)
  rw [Plan.keeps_bind]
  refine (keeps_upSweep hbuf e.succ_pos ?_).mono ?_
  · intro l hl
    cases l with
    | cell b k =>
      rw [Function.update_of_ne (by simp), Function.update_of_ne (by simp),
        snap_cell (t := 0) (by omega) (by omega), snap_zero]
    | cache gr c =>
      obtain ⟨rfl, hturn⟩ := hl
      rw [Turn, if_pos rfl] at hturn
      rcases hturn with rfl | rfl
      · rw [Function.update_of_ne (by simp), Function.update_self,
          snap_cache Nat.one_pos (by omega)]
        exact (part_eq histo e m ig 0).symm
      · rw [Function.update_self, snap_cache Nat.one_pos (by omega)]
        exact (part_eq histo e m ig 1).symm
  rintro _ _ _ ⟨rfl, rfl, rfl⟩
  rw [Plan.keeps_bind]
  refine (keeps_clearLast hbuf).mono ?_
  rintro _ v _ ⟨rfl, hsettled⟩
  change Plan.Keeps _ _ _ _ _ _ (downSweep _ _ _ (2 ^ 0) (2 ^ (e + 1 - 0)) >>= _)
  rw [Plan.keeps_bind]
  refine (keeps_downSweep hbuf (Nat.zero_le _) hsettled).mono ?_
  rintro _ v _ ⟨rfl, hsettled⟩
  have hsum {d : Nat} (hd : d < 2) : (scanPlan histo sums m hne hr).snap (2 * (e + 1) + 1)
      (.cache (ig / 2 ^ e) (2 * (ig % 2 ^ e) + d)) =
        ∑ i ∈ Finset.range (2 * (ig % 2 ^ e) + d), part histo e m (ig / 2 ^ e) i := by
    rw [snap_cache (by omega) (by omega),
      show 2 * (e + 1) + 1 = e + 1 + 1 + (e + 1) by omega, Scan.sweep_down (Nat.le_refl _),
      Scan.down_last (by omega)]
  have hsees {d : Nat} : (scanPlan histo sums m hne hr).Sees ig (2 * (e + 1) + 1)
      (.cache (ig / 2 ^ e) (2 * (ig % 2 ^ e) + d)) :=
    sees_cache fun _ ↦ Scan.not_turn (by omega)
  rw [WorkItems.barrier_bind, Plan.keeps_sync]
  refine ⟨by change 2 * (e + 1) < 2 * (e + 1) + 2; omega, hsettled, hokc Nat.two_pos,
    hsees (d := 0), hokh Nat.two_pos, hcell Nat.two_pos, hokc Nat.one_lt_two, hsees,
    hokh Nat.one_lt_two, hcell Nat.one_lt_two, Nat.lt_succ_self _, ?_, rfl, ?_⟩
  · intro l hl
    cases l with
    | cell b k =>
      rcases hl with ⟨rfl, rfl | rfl⟩ | ⟨rfl, _⟩
      · rw [Function.update_of_ne (by simp), Function.update_self]
        exact (hsum (d := 0) Nat.two_pos).trans (snap_sum (d := 0) (Nat.le_refl _) Nat.two_pos).symm
      · rw [Function.update_self, Function.update_of_ne (by simp)]
        exact (hsum Nat.one_lt_two).trans (snap_sum (Nat.le_refl _) Nat.one_lt_two).symm
      · rw [Function.update_of_ne fun h ↦ hne (Place.cell.inj h).1.symm,
          Function.update_of_ne fun h ↦ hne (Place.cell.inj h).1.symm]
        exact (snap_sums (by omega)).symm
    | cache gr c => exact absurd hl.2 (Scan.not_turn (by omega))
  · intro l hl
    cases l with
    | cell b k => exact (snap_cell (by omega) (by omega)).symm
    | cache gr c => exact absurd hl.2 (Scan.not_turn (by omega))

end

/-! ### The two launches -/

variable {geo : Geometry} {n : Nat} {post : (Place → V) → Prop}

/-- What a memory holds after a scan of `histo` in parts, with the sums in `sums`. -/
structure Scanned (histo sums : Buffer) (e parts : Nat) (m m' : Place → V) : Prop where
  prefixSum : ∀ k < parts * 2 ^ (e + 1), m' (.cell histo k) =
    ∑ i ∈ Finset.range (k % 2 ^ (e + 1)), part histo e m (k / 2 ^ (e + 1)) i
  partSum : ∀ k < parts, m' (.cell sums k) = ∑ i ∈ Finset.range (2 ^ (e + 1)), part histo e m k i
  rest : ∀ b k, b ≠ histo → b ≠ sums → m' (.cell b k) = m (.cell b k)

private theorem runs_scan {ok : Place → Prop} (hne : histo ≠ sums) (hr : ScanRange r e parts)
    (hbuf : ScanBuffers histo sums e parts ok)
    (hpost : ∀ m', Scanned histo sums e parts m m' → post m') :
    KernelRuns r (scanhistograms histo sums r) ok m post := by
  refine .of_plan (scanPlan histo sums m hne hr) rfl snap_zero ?_
    (fun ig ↦ keeps_scanhistograms hbuf) (hpost _ ⟨?_, ?_, ?_⟩)
  · intro t t' i j b k h h'
    have howns : ScanOwns histo sums e t i (.cell b k) := h
    have howns' : ScanOwns histo sums e t' j (.cell b k) := h'
    exact Fin.ext (howns.cell_eq hne howns')
  · intro k hk
    change scanSnap histo sums e parts m (2 * (e + 1) + 2 + 1) (.cell histo k) = _
    rw [scanSnap, if_pos rfl, if_pos ⟨Nat.le_succ _, hk⟩]
  · intro k hk
    change scanSnap histo sums e parts m (2 * (e + 1) + 2 + 1) (.cell sums k) = _
    rw [scanSnap, if_neg hne.symm, if_pos rfl, if_pos ⟨by omega, hk⟩]
  · intro b k hb hb'
    change scanSnap histo sums e parts m (2 * (e + 1) + 2 + 1) (.cell b k) = _
    rw [scanSnap, if_neg hb, if_neg hb']

/-- The scan of the histogram. -/
theorem runs_scanHistogram (h : Split geo (2 ^ e))
    (hpost : ∀ m', Scanned .histograms .globsum e geo.histosplit m m' → post m') :
    KernelRuns (Command.scanHistogram.range geo) (scanhistograms .histograms .globsum _)
      (Command.scanHistogram.InBuffers geo n) m post := by
  have hsize : geo.items * geo.groups * radix = geo.histosplit * 2 ^ (e + 1) := by
    rw [Nat.pow_succ', ← h.size, Nat.mul_comm geo.items, Nat.mul_comm]
  refine runs_scan (by decide) ⟨h.part, h.half⟩ ⟨?_, ?_, ?_⟩ hpost
  · intro gr c hc
    refine hc.trans_le ((Nat.le_max_right geo.histosplit _).trans' ?_)
    rw [hsize, Nat.mul_div_cancel_left _ h.pos]
  · intro k hk
    change k < radix * geo.groups * geo.items
    rwa [Nat.mul_assoc, h.size, ← Nat.pow_succ']
  · exact fun k hk ↦ hk

/-- The scan of the sums, in one part. -/
theorem runs_scanGlobsum (h : geo.histosplit = 2 ^ (e + 1))
    (hpost : ∀ m', Scanned .globsum .temp e 1 m m' → post m') :
    KernelRuns (Command.scanGlobsum.range geo) (scanhistograms .globsum .temp _)
      (Command.scanGlobsum.InBuffers geo n) m post := by
  have hhalf : geo.histosplit / 2 = 2 ^ e := by
    rw [h, Nat.pow_succ, Nat.mul_div_cancel _ Nat.two_pos]
  refine runs_scan (by decide) ⟨hhalf, hhalf.trans (Nat.one_mul _).symm⟩ ⟨?_, ?_, ?_⟩ hpost
  · intro gr c hc
    rw [← h] at hc
    exact hc.trans_le (Nat.le_max_left _ _)
  · intro k hk
    rwa [Nat.one_mul, ← h] at hk
  · intro k hk
    change k < geo.histosplit
    have := Nat.two_pow_pos (e + 1)
    omega

end QHGPU.Radix
