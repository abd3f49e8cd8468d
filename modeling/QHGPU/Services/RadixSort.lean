import Mathlib.Data.Fintype.Basic
import Mathlib.Data.Nat.Log
import QHGPU.Base.OpenCL
import QHGPU.Library.WorkItems

/-!
# Radix sort

The kernels of `src/kernel/cl_radix_sort.cl` and the host code of the service,
`src/test_module/radix_sort/lib/`. Keys, counts and positions are `int`s that are not negative;
the sizes of all arrays are `int`s too, so that no sum of counts leaves the type. The scan adds
words of any type.
-/

namespace QHGPU.Radix

open WorkItems (Prog Launch Stays load store barrier)

/-! ### Parameters -/

/-- `_BITS`, `_RADIX`, `_TOTALBITS`, `_PASS` and `_MAXINT`,
`src/test_module/radix_sort/lib/cl_radix_sort_param.h:13–32`. -/
def bits : Nat := 5

def radix : Nat := 1 <<< bits

def totalbits : Nat := 25

def passes : Nat := totalbits / bits

def maxint : Nat := 1 <<< (totalbits - 1)

/-- `TRANSPOSE`, and `_GROUPS * _ITEMS` as the file of the kernels defines it,
`src/kernel/cl_radix_sort.cl:10–21`. -/
def transpose : Bool := false

def kernelItems : Nat := 16 * 16

/-- `_GROUPS`, `_ITEMS` and `_HISTOSPLIT` of the host. -/
structure Geometry where
  groups : Nat
  items : Nat
  histosplit : Nat
  deriving DecidableEq, Repr

/-! ### Memory -/

/-- The buffers on the device. -/
inductive Buffer where
  | inKeys
  | outKeys
  | inPermut
  | outPermut
  | histograms
  | globsum
  | temp
  deriving DecidableEq, Repr

/-- An entry of a buffer, or of the `__local` array of a work-group. -/
inductive Place where
  | cell (b : Buffer) (i : Nat)
  | cache (gr i : Nat)
  deriving DecidableEq, Repr

/-- The buffers and the local arrays. -/
abbrev Memory := Place → Nat

/-- The range of a launch. -/
structure NDRange where
  globalSize : Nat
  localSize : Nat

/-- `get_group_id`. -/
def NDRange.group (r : NDRange) (ig : Fin r.globalSize) : Nat := ig / r.localSize

/-- `get_local_id`. -/
def NDRange.localId (r : NDRange) (ig : Fin r.globalSize) : Nat := ig % r.localSize

/-- `get_num_groups`. -/
def NDRange.numGroups (r : NDRange) : Nat := r.globalSize / r.localSize

/-! ### Kernels -/

/-- `index`, `src/kernel/cl_radix_sort.cl:36–48`. -/
def index (i n : Nat) : Nat :=
  if transpose then i % (n / kernelItems) * kernelItems + i / (n / kernelItems) else i

/-- Without `TRANSPOSE` nothing is moved. -/
theorem index_eq (i n : Nat) : index i n = i := rfl

/-- The bits of the pass, `src/kernel/cl_radix_sort.cl:89`. -/
def shortkey (pass key : Nat) : Nat := (key >>> (pass * bits)) &&& (radix - 1)

/-- `histogram`, `src/kernel/cl_radix_sort.cl:53–105`. -/
def histogram (pass n : Nat) (r : NDRange) (ig : Fin r.globalSize) : Prog Place Nat Unit := do
  let it := r.localId ig
  let gr := r.group ig
  let groups := r.numGroups
  let items := r.localSize
  (List.range radix).forM fun ir ↦ store (.cache gr (ir * items + it)) 0
  barrier
  let start := ig * (n / groups / items)
  let size := n / groups / items
  (List.range size).forM fun k ↦ do
    let key ← load (.cell .inKeys (index (start + k) n))
    let count ← load (.cache gr (shortkey pass key * items + it))
    store (.cache gr (shortkey pass key * items + it)) (count + 1)
  barrier
  (List.range radix).forM fun ir ↦ do
    let count ← load (.cache gr (ir * items + it))
    store (.cell .histograms (ir * groups * items + items * gr + it)) count
  barrier

section

variable {V : Type} [Add V] [Zero V]

/-- One turn of the first loop of `scanhistograms`, after the barrier,
`src/kernel/cl_radix_sort.cl:222–227`. -/
def upStep (gr it d decale : Nat) : Prog Place V Unit := do
  if it < d then
    let ai := decale * (2 * it + 1) - 1
    let bi := decale * (2 * it + 2) - 1
    let b ← load (.cache gr bi)
    let a ← load (.cache gr ai)
    store (.cache gr bi) (b + a)

/-- The first loop, `src/kernel/cl_radix_sort.cl:220–228`. It returns `decale`. -/
def upSweep (gr it d decale : Nat) : Prog Place V Nat :=
  if 0 < d then do
    barrier
    upStep gr it d decale
    upSweep gr it (d / 2) (decale * 2)
  else pure decale
termination_by d

/-- The first item stores the sum and clears the last entry,
`src/kernel/cl_radix_sort.cl:233–236`. -/
def clearLast (sums : Buffer) (gr it n : Nat) : Prog Place V Unit := do
  if it = 0 then
    let sum ← load (.cache gr (n - 1))
    store (.cell sums gr) sum
    store (.cache gr (n - 1)) 0

/-- One turn of the second loop, after the barrier, `src/kernel/cl_radix_sort.cl:243–250`. -/
def downStep (gr it d decale : Nat) : Prog Place V Unit := do
  if it < d then
    let ai := decale * (2 * it + 1) - 1
    let bi := decale * (2 * it + 2) - 1
    let t ← load (.cache gr ai)
    let b ← load (.cache gr bi)
    store (.cache gr ai) b
    let b ← load (.cache gr bi)
    store (.cache gr bi) (b + t)

/-- The second loop, `src/kernel/cl_radix_sort.cl:239–252`; `d` starts at 1. -/
def downSweep (gr it n d decale : Nat) : Prog Place V Unit :=
  if 0 < d ∧ d < n then do
    barrier
    downStep gr it d (decale / 2)
    downSweep gr it n (d * 2) (decale / 2)
  else pure ()
termination_by n - d

/-- `scanhistograms`, `src/kernel/cl_radix_sort.cl:205–262`, on the buffers of its arguments
`histo` and `globsum`. -/
def scanhistograms (histo sums : Buffer) (r : NDRange) (ig : Fin r.globalSize) :
    Prog Place V Unit := do
  let it := r.localId ig
  let n := r.localSize * 2
  let gr := r.group ig
  let a ← load (.cell histo (2 * ig))
  store (.cache gr (2 * it)) a
  let b ← load (.cell histo (2 * ig + 1))
  store (.cache gr (2 * it + 1)) b
  let decale ← upSweep gr it (n / 2) 1
  clearLast sums gr it n
  downSweep gr it n 1 decale
  barrier
  let a ← load (.cache gr (2 * it))
  store (.cell histo (2 * ig)) a
  let b ← load (.cache gr (2 * it + 1))
  store (.cell histo (2 * ig + 1)) b
  barrier

/-- `pastehistograms`, `src/kernel/cl_radix_sort.cl:266–282`. -/
def pastehistograms (r : NDRange) (ig : Fin r.globalSize) : Prog Place V Unit := do
  let gr := r.group ig
  let s ← load (.cell .globsum gr)
  let a ← load (.cell .histograms (2 * ig))
  store (.cell .histograms (2 * ig)) (a + s)
  let b ← load (.cell .histograms (2 * ig + 1))
  store (.cell .histograms (2 * ig + 1)) (b + s)
  barrier

end

/-- `reorder`, `src/kernel/cl_radix_sort.cl:150–199`. -/
def reorder (pass n : Nat) (r : NDRange) (ig : Fin r.globalSize) : Prog Place Nat Unit := do
  let it := r.localId ig
  let gr := r.group ig
  let groups := r.numGroups
  let items := r.localSize
  let start := ig * (n / groups / items)
  let size := n / groups / items
  (List.range radix).forM fun ir ↦ do
    let pos ← load (.cell .histograms (ir * groups * items + items * gr + it))
    store (.cache gr (ir * items + it)) pos
  barrier
  (List.range size).forM fun k ↦ do
    let key ← load (.cell .inKeys (index (start + k) n))
    let newpos ← load (.cache gr (shortkey pass key * items + it))
    store (.cell .outKeys (index newpos n)) key
    let permut ← load (.cell .inPermut (index (start + k) n))
    store (.cell .outPermut (index newpos n)) permut
    store (.cache gr (shortkey pass key * items + it)) (newpos + 1)

/-! ### The launches -/

/-- The launches of `cl_radix_histogram`, `cl_radix_scan_histogram` and `cl_radix_reorder`,
`src/test_module/radix_sort/lib/cl_radix_sort.c:704–992`. -/
inductive Command where
  | histogram (pass : Nat)
  | scanHistogram
  | scanGlobsum
  | pasteHistogram
  | reorder (pass : Nat)
  deriving DecidableEq, Repr

variable (geo : Geometry)

/-- `nbitems` and `nblocitems`,
`src/test_module/radix_sort/lib/cl_radix_sort.c:708–709,771–774,836–837,870–871,911–912`. -/
def Command.range : Command → NDRange
  | .histogram _ | .reorder _ => ⟨geo.groups * geo.items, geo.items⟩
  | .scanHistogram | .pasteHistogram =>
    ⟨radix * geo.groups * geo.items / 2, radix * geo.groups * geo.items / 2 / geo.histosplit⟩
  | .scanGlobsum => ⟨geo.histosplit / 2, geo.histosplit / 2⟩

/-- The kernel that is launched, with its arguments. -/
def Command.kernel (n : Nat) : (c : Command) → Fin (c.range geo).globalSize → Prog Place Nat Unit
  | .histogram pass => Radix.histogram pass n _
  | .scanHistogram => scanhistograms .histograms .globsum _
  | .scanGlobsum => scanhistograms .globsum .temp _
  | .pasteHistogram => pastehistograms _
  | .reorder pass => Radix.reorder pass n _

/-- The entries of the buffers, and of the `__local` array that the launch asks for. -/
def Command.InBuffers (n : Nat) (c : Command) : Place → Prop
  | .cell .inKeys i | .cell .outKeys i | .cell .inPermut i | .cell .outPermut i => i < n
  | .cell .histograms i => i < radix * geo.groups * geo.items
  | .cell .globsum i | .cell .temp i => i < geo.histosplit
  | .cache _ i =>
    match c with
    | .histogram _ | .reorder _ => i < radix * geo.items
    | .scanHistogram | .scanGlobsum =>
      i < max geo.histosplit (geo.items * geo.groups * radix / geo.histosplit)
    | .pasteHistogram => False

/-- `nkeys` and `nkeys_rounded`. -/
structure Sizes where
  nkeys : Nat
  nkeysRounded : Nat
  deriving DecidableEq, Repr

/-- The assertions before the launch,
`src/test_module/radix_sort/lib/cl_radix_sort.c:711–720,937–943`. -/
def Command.asserted (s : Sizes) : Command → Bool
  | .histogram _ =>
    decide (radix = 2 ^ bits) && decide (s.nkeysRounded % (geo.groups * geo.items) = 0) &&
      decide (s.nkeysRounded ≤ s.nkeys)
  | .reorder _ =>
    decide (s.nkeysRounded % (geo.groups * geo.items) = 0) && decide (radix = 2 ^ bits)
  | .scanHistogram | .scanGlobsum | .pasteHistogram => true

/-- The assertion after it: `clEnqueueNDRangeKernel` returned `CL_SUCCESS`. -/
def Command.accepted (c : Command) : Bool :=
  rangeAccepted (c.range geo).globalSize (c.range geo).localSize

/-- `reorder` is followed by the swap of the old and new vectors. -/
def Buffer.swap : Buffer → Buffer
  | .inKeys => .outKeys
  | .outKeys => .inKeys
  | .inPermut => .outPermut
  | .outPermut => .inPermut
  | b => b

/-- What the host swaps after the launch. -/
def Command.swap (c : Command) (m : Memory) : Memory :=
  match c with
  | .reorder _ => fun
    | .cell b i => m (.cell b.swap i)
    | .cache gr i => m (.cache gr i)
  | _ => m

/-- The launches of `cl_radix_sort`, each followed by `clFinish`,
`src/test_module/radix_sort/lib/cl_radix_sort.c:507–524`. -/
def launches : List Command :=
  (List.range passes).flatMap fun pass ↦
    [.histogram pass, .scanHistogram, .scanGlobsum, .pasteHistogram, .reorder pass]

/-! ### What a launch does -/

/-- The same buffers. What the local memory of a launch holds at first is not defined. -/
def SameBuffers {V : Type} (m m' : Place → V) : Prop := ∀ b i, m' (.cell b i) = m (.cell b i)

/-- No two items store to the same entry of a buffer. -/
def Apart {V : Type} {S : Nat} (group : Fin S → Nat) (prog : Fin S → Prog Place V Unit)
    (m : Place → V) : Prop :=
  ∀ acts acts' c c' i j b k,
    StepRun.run (WorkItems.step group) ⟨m, prog⟩ acts = some c →
    StepRun.run (WorkItems.step group) ⟨m, prog⟩ acts' = some c' →
    (c.prog i).target = some (.cell b k) → (c'.prog j).target = some (.cell b k) → i = j

/-- The items stay in the buffers and store to different entries; the launch ends, and in every
order of the steps `post` holds of what it leaves. -/
structure KernelRuns {V : Type} (r : NDRange) (prog : Fin r.globalSize → Prog Place V Unit)
    (ok : Place → Prop) (m : Place → V) (post : (Place → V) → Prop) : Prop where
  stays : Stays r.group prog m ok
  apart : Apart r.group prog m
  ends : ∃ m', Launch r.group prog m m'
  post : ∀ m', Launch r.group prog m m' → post m'

/-- The launch of a command. -/
structure Command.Runs (n : Nat) (c : Command) (m : Memory) (post : Memory → Prop) : Prop where
  stays : Stays (c.range geo).group (c.kernel geo n) m (c.InBuffers geo n)
  apart : Apart (c.range geo).group (c.kernel geo n) m
  ends : ∃ m', Launch (c.range geo).group (c.kernel geo n) m m'
  post : ∀ m', Launch (c.range geo).group (c.kernel geo n) m m' → post (c.swap m')

/-- The commands run one after the other, none of their assertions fails, and `post` holds at the
end. -/
def Completes (s : Sizes) (post : Memory → Prop) : List Command → Memory → Prop
  | [], m => post m
  | c :: cs, m => c.asserted geo s = true ∧ c.accepted geo = true ∧
      ∀ m', SameBuffers m m' → c.Runs geo s.nkeysRounded m' (Completes s post cs)

/-- `cl_radix_sort`, `src/test_module/radix_sort/lib/cl_radix_sort.c:483–537`, with its own
assertions. -/
def ClRadixSort (s : Sizes) (post : Memory → Prop) (m : Memory) : Prop :=
  s.nkeysRounded ≤ s.nkeys ∧ s.nkeys ≤ s.nkeysRounded ∧ Completes geo s post launches m

end QHGPU.Radix
