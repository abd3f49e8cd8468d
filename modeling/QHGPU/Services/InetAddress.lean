import QHGPU.Library.Decimal
import QHGPU.Services.PacketMatching

/-!
# Addresses in text

`inet_aton` and `print_ip` of `src/test_module/cpu_firewall/cpu_firewall_module.c:2079–2086` and
`2189–2205`, which the other firewall modules repeat. A packet holds its address in network byte
order, and the machine is little-endian.
-/

namespace QHGPU.Firewall

open Decimal (Numeral scanInts scanInts_intercalate pad numeral_pad)

/-! ### `inet_aton` -/

/-- `addr[i] = (char) iaddr[i]`, `src/test_module/cpu_firewall/cpu_firewall_module.c:2196–2198`;
`iaddr[i]` is 0 where `sscanf` stores nothing. -/
def addr (str : List Char) (i : Nat) : BitVec 8 := BitVec.ofInt 8 ((scanInts 4 str).getD i 0)

/-- `inet_aton`, `src/test_module/cpu_firewall/cpu_firewall_module.c:2189–2205`. -/
def inetAton (str : List Char) : BitVec 64 :=
  let result := [3, 2, 1].foldl (fun result i ↦ (result ||| (addr str i).setWidth 64) <<< 8) 0
  result ||| (addr str 0).setWidth 64

/-- `iph->saddr` for the bytes of the address in the order of the packet. -/
def saddrOf (b₀ b₁ b₂ b₃ : BitVec 8) : BitVec 32 := b₃ ++ b₂ ++ b₁ ++ b₀

/-- Four numbers with dots between them. -/
def Dotted (str : List Char) (a b c d : Nat) : Prop :=
  ∃ s₀ s₁ s₂ s₃, Numeral s₀ a ∧ Numeral s₁ b ∧ Numeral s₂ c ∧ Numeral s₃ d ∧
    str = List.intercalate ['.'] [s₀, s₁, s₂, s₃]

/-! ### `print_ip` -/

/-- `bytes[i]`. -/
def byteOf (ip : BitVec 32) (i : Nat) : BitVec 8 := ip.extractLsb' (8 * i) 8

/-- What `print_ip` prints, `src/test_module/cpu_firewall/cpu_firewall_module.c:2079–2086`. -/
def printIp (ip : BitVec 32) : List Char :=
  List.intercalate ['.'] ([3, 2, 1, 0].map fun i ↦ pad 3 (byteOf ip i).toNat)

variable {str : List Char} {a b c d : Nat} {b₀ b₁ b₂ b₃ : BitVec 8}

/-! ### Bytes -/

/-- The shifts put the bytes side by side. -/
theorem shifted_bytes (b₀ b₁ b₂ b₃ : BitVec 8) :
    ((((0 ||| b₃.setWidth 64) <<< 8 ||| b₂.setWidth 64) <<< 8 ||| b₁.setWidth 64) <<< 8 |||
      b₀.setWidth 64 : BitVec 64) = (saddrOf b₀ b₁ b₂ b₃).setWidth 64 := by
  apply BitVec.eq_of_getLsbD_eq
  intro i hi
  simp [saddrOf]
  grind

private theorem inetAton_eq (str : List Char) : inetAton str =
    (saddrOf (addr str 0) (addr str 1) (addr str 2) (addr str 3)).setWidth 64 :=
  shifted_bytes ..

/-- The bytes of an address in the order of the packet. -/
theorem byteOf_saddrOf (b₀ b₁ b₂ b₃ : BitVec 8) :
    byteOf (saddrOf b₀ b₁ b₂ b₃) 0 = b₀ ∧ byteOf (saddrOf b₀ b₁ b₂ b₃) 1 = b₁ ∧
      byteOf (saddrOf b₀ b₁ b₂ b₃) 2 = b₂ ∧ byteOf (saddrOf b₀ b₁ b₂ b₃) 3 = b₃ := by
  refine ⟨?_, ?_, ?_, ?_⟩
  all_goals
    apply BitVec.eq_of_getLsbD_eq
    intro i hi
    simp [byteOf, saddrOf]
    grind

private theorem saddrOf_byteOf (ip : BitVec 32) :
    saddrOf (byteOf ip 0) (byteOf ip 1) (byteOf ip 2) (byteOf ip 3) = ip := by
  apply BitVec.eq_of_getLsbD_eq
  intro i hi
  simp [byteOf, saddrOf]
  grind

/-- Different bytes are different addresses, also as `unsigned long`. -/
theorem saddrOf_inj {c₀ c₁ c₂ c₃ : BitVec 8} : (saddrOf b₀ b₁ b₂ b₃).setWidth 64 =
    (saddrOf c₀ c₁ c₂ c₃).setWidth 64 ↔ b₀ = c₀ ∧ b₁ = c₁ ∧ b₂ = c₂ ∧ b₃ = c₃ := by
  constructor
  · intro h
    have hsame : saddrOf b₀ b₁ b₂ b₃ = saddrOf c₀ c₁ c₂ c₃ := by
      have hwidth := congrArg (BitVec.setWidth 32) h
      simpa using hwidth
    obtain ⟨h₀, h₁, h₂, h₃⟩ := byteOf_saddrOf b₀ b₁ b₂ b₃
    obtain ⟨h₀', h₁', h₂', h₃'⟩ := byteOf_saddrOf c₀ c₁ c₂ c₃
    rw [hsame] at h₀ h₁ h₂ h₃
    exact ⟨h₀.symm.trans h₀', h₁.symm.trans h₁', h₂.symm.trans h₂', h₃.symm.trans h₃'⟩
  · intro h
    rw [h.1, h.2.1, h.2.2.1, h.2.2.2]

/-! ### What is read -/

/-- Each number counts by its last eight bits. -/
theorem inetAton_dotted (h : Dotted str a b c d) : inetAton str =
    (saddrOf (BitVec.ofNat 8 a) (BitVec.ofNat 8 b) (BitVec.ofNat 8 c)
      (BitVec.ofNat 8 d)).setWidth 64 := by
  obtain ⟨s₀, s₁, s₂, s₃, h₀, h₁, h₂, h₃, rfl⟩ := h
  have hscan : scanInts 4 (List.intercalate ['.'] [s₀, s₁, s₂, s₃]) =
      [(a : Int), (b : Int), (c : Int), (d : Int)] := by
    apply scanInts_intercalate [(s₀, a), (s₁, b), (s₂, c), (s₃, d)]
    simp [h₀, h₁, h₂, h₃]
  simp only [inetAton_eq, addr, hscan]
  simp

/-- The hook drops a TCP or UDP packet exactly when one of the 2048 lines has the four bytes of
its source address, in the order of the packet, up to multiples of 256. -/
theorem mainHook_drops_listed (badAddress : Nat → List Char)
    (hlines : ∀ i < 2048, ∃ a b c d, Dotted (badAddress i) a b c d) (protocol : Nat)
    (hprotocol : protocol = tcp ∨ protocol = udp) (b₀ b₁ b₂ b₃ : BitVec 8) :
    mainHook (fun i ↦ inetAton (badAddress i)) protocol (saddrOf b₀ b₁ b₂ b₃) = .nfDrop ↔
      ∃ i < 2048, ∃ a b c d, Dotted (badAddress i) a b c d ∧ a % 256 = b₀.toNat ∧
        b % 256 = b₁.toNat ∧ c % 256 = b₂.toNat ∧ d % 256 = b₃.toNat := by
  have hbyte (x : BitVec 8) (n : Nat) : x = BitVec.ofNat 8 n ↔ n % 256 = x.toNat := by
    rw [← BitVec.toNat_inj, BitVec.toNat_ofNat, eq_comm]
  rw [mainHook_eq_nfDrop_iff hprotocol]
  constructor
  · rintro ⟨i, hi, heq⟩
    obtain ⟨a, b, c, d, hline⟩ := hlines i hi
    change (saddrOf b₀ b₁ b₂ b₃).setWidth 64 = inetAton (badAddress i) at heq
    rw [inetAton_dotted hline, saddrOf_inj] at heq
    simp only [hbyte] at heq
    exact ⟨i, hi, a, b, c, d, hline, heq⟩
  · rintro ⟨i, hi, a, b, c, d, hline, heq⟩
    refine ⟨i, hi, ?_⟩
    simp only [← hbyte] at heq
    show (saddrOf b₀ b₁ b₂ b₃).setWidth 64 = inetAton (badAddress i)
    rw [inetAton_dotted hline, saddrOf_inj]
    exact heq

/-- A table whose lines are all the same, with a number beyond 255. -/
theorem mainHook_drops_listed_same :
    mainHook (fun _ ↦ inetAton "1.292.202.60".toList) tcp (saddrOf 1 36 202 60) = .nfDrop ↔
      ∃ i < 2048, ∃ a b c d, Dotted "1.292.202.60".toList a b c d ∧
        a % 256 = (1 : BitVec 8).toNat ∧ b % 256 = (36 : BitVec 8).toNat ∧
          c % 256 = (202 : BitVec 8).toNat ∧ d % 256 = (60 : BitVec 8).toNat := by
  apply mainHook_drops_listed (fun _ ↦ "1.292.202.60".toList) _ tcp (Or.inl rfl)
  intro i _
  exact ⟨1, 292, 202, 60, _, _, _, _, numeral_pad 0 1, numeral_pad 0 292, numeral_pad 0 202,
    numeral_pad 0 60, rfl⟩

/-! ### What is printed -/

private theorem dotted_printIp (ip : BitVec 32) : Dotted (printIp ip) (byteOf ip 3).toNat
    (byteOf ip 2).toNat (byteOf ip 1).toNat (byteOf ip 0).toNat :=
  ⟨_, _, _, _, numeral_pad .., numeral_pad .., numeral_pad .., numeral_pad .., rfl⟩

/-- `inet_aton` reads back what `print_ip` has printed with the bytes the other way round, and so
gives the address only when it reads the same in both directions. -/
theorem inetAton_printIp (ip : BitVec 32) :
    inetAton (printIp ip) = (saddrOf (byteOf ip 3) (byteOf ip 2) (byteOf ip 1)
      (byteOf ip 0)).setWidth 64 ∧
    (inetAton (printIp ip) = ip.setWidth 64 ↔
      byteOf ip 0 = byteOf ip 3 ∧ byteOf ip 1 = byteOf ip 2) := by
  have hread : inetAton (printIp ip) = (saddrOf (byteOf ip 3) (byteOf ip 2) (byteOf ip 1)
      (byteOf ip 0)).setWidth 64 := by
    rw [inetAton_dotted (dotted_printIp ip)]
    simp only [BitVec.ofNat_toNat, BitVec.setWidth_eq]
  refine ⟨hread, ?_⟩
  have hip := saddrOf_byteOf ip
  rw [hread]
  conv_lhs => rw [← hip]
  simp only [byteOf_saddrOf, saddrOf_inj]
  constructor
  · intro h
    exact ⟨h.2.2.2, h.2.2.1⟩
  · intro h
    exact ⟨h.1.symm, h.2.symm, h.2, h.1⟩

end QHGPU.Firewall
