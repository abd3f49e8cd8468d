import QHGPU.Kernel.Lifecycle
import QHGPU.Library.StepRun

/-!
# What a holder of a request leaves behind

`qhgpu_alloc_request` assigns four fields and copies a string; the constructor runs only on
new objects. The rest of the object is what the client sets, or what an earlier client set.
-/

namespace QHGPU.Kernel

open CString

/-- The fields that a client sets after `qhgpu_alloc_request`; `none` is a field left alone. -/
structure Assignment where
  inp : Option Word
  out : Option Word
  udata : Option Word
  kdata : Option Word
  insize : Option Word
  outsize : Option Word
  udatasize : Option Word
  mmapSize : Option Word
  batchSize : Option Word
  serviceName : Option (List UInt8)
  callback : Option (Option Nat)
  module : Option Word

/-- The object after the assignments. -/
def Assignment.apply (p : Assignment) (req : QhgpuRequest) : QhgpuRequest :=
  { req with
    inp := p.inp.getD req.inp
    out := p.out.getD req.out
    udata := p.udata.getD req.udata
    kdata := (p.kdata.map .client).getD req.kdata
    insize := p.insize.getD req.insize
    outsize := p.outsize.getD req.outsize
    udatasize := p.udatasize.getD req.udatasize
    mmapSize := p.mmapSize.getD req.mmapSize
    batchSize := p.batchSize.getD req.batchSize
    serviceName := p.serviceName.getD req.serviceName
    callback := (p.callback.map .ofClient).getD req.callback
    module := p.module.getD req.module }

/-- What is seen of a request that is submitted, apart from id and slot address. -/
structure Submission where
  kureq : QhgpuKuRequest
  callback : Callback
  kdata : Kdata
  module : Word

/-- What is seen of the object. -/
def submission (gmp : QhgpuMempool) (stack : QhgpuKuRequest) (req : QhgpuRequest) :
    Submission where
  kureq := { fillKuRequest gmp stack req with id := 0, kmmapAddr := 0 }
  callback := req.callback
  kdata := req.kdata
  module := req.module

/-- After any two histories, a client that sets the same fields submits the same. -/
def NothingLeft (n : Nat) (arr : Int → Word) (pool : QhgpuMempool) (dataSize : Int)
    (serviceName : List UInt8) (p : Assignment) : Prop :=
  ∀ (history history' : List LifeAct) (src src' : Option Source) (l l' t t' : Lifecycle)
    (stack : QhgpuKuRequest),
    StepRun.run lifeStep (.start n arr pool) history = some l →
    StepRun.run lifeStep (.start n arr pool) history' = some l' →
    lifeStep l (.alloc dataSize serviceName src) = some t →
    lifeStep l' (.alloc dataSize serviceName src') = some t' →
      submission t.kernel.gmpool stack (p.apply (t.kernel.request l.kernel.nextReq)) =
        submission t'.kernel.gmpool stack (p.apply (t'.kernel.request l'.kernel.nextReq))

/-- The client sets every field that `qhgpu_alloc_request` does not, and the name fills the
array or is set by the client. -/
structure Assignment.SetsAll (p : Assignment) (serviceName : List UInt8) : Prop where
  inp : p.inp ≠ none
  out : p.out ≠ none
  udata : p.udata ≠ none
  kdata : p.kdata ≠ none
  insize : p.insize ≠ none
  outsize : p.outsize ≠ none
  udatasize : p.udatasize ≠ none
  callback : p.callback ≠ none
  module : p.module ≠ none
  name : p.serviceName ≠ none ∨ qhgpuServiceNameSize ≤ (cstr serviceName).length + 1

/-! ### The object behind a submission -/

/-- The object `o` with the name and the sizes that `qhgpu_alloc_request` stores. -/
def issued (dataSize : Int) (serviceName : List UInt8) (o : QhgpuRequest) : QhgpuRequest :=
  { o with
    serviceName := strcpy o.serviceName serviceName
    mmapSize := BitVec.ofInt 64 dataSize
    batchSize := BitVec.ofInt 64 (batchCount dataSize) }

private theorem allocFrom_request (s : State) (dataSize : Int) (serviceName : List UInt8)
    (o : QhgpuRequest) : (allocFrom s dataSize serviceName o).request s.nextReq =
      { issued dataSize serviceName o with
        id := (qhgpuMmapId s).1
        kmmapAddr := s.kmmapAddrArr (qhgpuMmapId s).1 } := by
  rcases mmapId_cases s with ⟨k, _, _, _, heq⟩ | ⟨_, heq⟩
  · rw [allocFrom, heq]
    simp only [State.setRequest, Function.update_self]
    rfl
  · rw [allocFrom, heq]
    simp only [State.setRequest, Function.update_self]
    rfl

/-- Id and slot address are not seen. -/
theorem submission_allocFrom (gmp : QhgpuMempool) (stack : QhgpuKuRequest) (p : Assignment)
    (s : State) (dataSize : Int) (serviceName : List UInt8) (o : QhgpuRequest) :
    submission gmp stack (p.apply ((allocFrom s dataSize serviceName o).request s.nextReq)) =
      submission gmp stack (p.apply (issued dataSize serviceName o)) := by
  rw [allocFrom_request]
  rfl

private theorem allocFrom_gmpool (s : State) (dataSize : Int) (serviceName : List UInt8)
    (o : QhgpuRequest) : (allocFrom s dataSize serviceName o).gmpool = s.gmpool := by
  rcases mmapId_cases s with ⟨k, _, _, _, heq⟩ | ⟨_, heq⟩ <;> rw [allocFrom, heq] <;> rfl

/-- The pool is set up before the request path is used. -/
theorem Trans.gmpool_eq {s s' : State} {a : Act} (h : Trans s a s') : s'.gmpool = s.gmpool := by
  cases h with
  | _ => rfl

private theorem LifeTrans.gmpool_eq {l l' : Lifecycle} {a : LifeAct} (h : LifeTrans l a l') :
    l'.kernel.gmpool = l.kernel.gmpool := by
  cases h with
  | alloc => exact allocFrom_gmpool _ _ _ _
  | free => rfl
  | kernel _ hk => exact hk.gmpool_eq

variable {n : Nat} {arr : Int → Word} {pool : QhgpuMempool} {dataSize : Int}
  {serviceName : List UInt8} {p : Assignment}

private theorem gmpool_of_run {history : List LifeAct} {l : Lifecycle}
    (h : StepRun.run lifeStep (.start n arr pool) history = some l) : l.kernel.gmpool = pool :=
  StepRun.run_invariant_of_step (I := fun l ↦ l.kernel.gmpool = pool)
    (fun _ _ _ hs hstep ↦ (lifeTrans_of_step hstep).gmpool_eq.trans hs) rfl h

/-! ### A client that sets every field -/

/-- The name copied over two different objects is the same in the bytes that are passed on,
once it fills the array. -/
theorem take_strcpy {m : Nat} {src : List UInt8} (h : m ≤ (cstr src).length + 1)
    (dst dst' : List UInt8) : (strcpy dst src).take m = (strcpy dst' src).take m := by
  have hsplit (dst : List UInt8) :
      (strcpy dst src).take m = (cstr src ++ [0]).take m := by
    have hlen : m ≤ (cstr src ++ [0]).length := by
      rw [List.length_append, List.length_singleton]
      exact h
    rw [strcpy, List.append_cons, List.take_append_of_le_length hlen]
  rw [hsplit, hsplit]

private theorem nothingLeft_of_setsAll (h : p.SetsAll serviceName) :
    NothingLeft n arr pool dataSize serviceName p := by
  have same (gmp : QhgpuMempool) (stack : QhgpuKuRequest) (o o' : QhgpuRequest) :
      submission gmp stack (p.apply (issued dataSize serviceName o)) =
        submission gmp stack (p.apply (issued dataSize serviceName o')) := by
    obtain ⟨inp, hinp⟩ := Option.ne_none_iff_exists'.mp h.inp
    obtain ⟨out, hout⟩ := Option.ne_none_iff_exists'.mp h.out
    obtain ⟨udata, hudata⟩ := Option.ne_none_iff_exists'.mp h.udata
    obtain ⟨kdata, hkdata⟩ := Option.ne_none_iff_exists'.mp h.kdata
    obtain ⟨insize, hinsize⟩ := Option.ne_none_iff_exists'.mp h.insize
    obtain ⟨outsize, houtsize⟩ := Option.ne_none_iff_exists'.mp h.outsize
    obtain ⟨udatasize, hudatasize⟩ := Option.ne_none_iff_exists'.mp h.udatasize
    obtain ⟨callback, hcallback⟩ := Option.ne_none_iff_exists'.mp h.callback
    obtain ⟨module, hmodule⟩ := Option.ne_none_iff_exists'.mp h.module
    have hname : (p.serviceName.getD (strcpy o.serviceName serviceName)).take
        qhgpuServiceNameSize =
          (p.serviceName.getD (strcpy o'.serviceName serviceName)).take
            qhgpuServiceNameSize := by
      cases hp : p.serviceName with
      | some _ => rfl
      | none => exact take_strcpy (h.name.resolve_left (not_not.mpr hp)) _ _
    simp only [submission, fillKuRequest, Assignment.apply, issued, hinp, hout, hudata, hkdata,
      hinsize, houtsize, hudatasize, hcallback, hmodule, hname, Option.getD_some, Option.map_some]
  intro history history' src src' l l' t t' stack hl hl' ht ht'
  have hpool := gmpool_of_run hl
  have hpool' := gmpool_of_run hl'
  cases lifeTrans_of_step ht with
  | @alloc _ _ _ o slab ho =>
    cases lifeTrans_of_step ht' with
    | @alloc _ _ _ o' slab' ho' =>
      dsimp only
      rw [allocFrom_gmpool, allocFrom_gmpool, hpool, hpool', submission_allocFrom,
        submission_allocFrom]
      exact same pool stack o o'

/-! ### A client that leaves a field alone -/

/-- A holder fills a request as it likes and frees it. -/
theorem exists_leftover (n : Nat) (arr : Int → Word) (pool : QhgpuMempool) (f : ClientFields) :
    ∃ history l base, StepRun.run lifeStep (.start n arr pool) history = some l ∧
      l.slab = [assign base f] := by
  let l₁ : Lifecycle := { Lifecycle.start n arr pool with
    kernel := allocFrom (.start n arr pool) 0 [] constructed }
  have hpos : 0 < l₁.kernel.nextReq := by
    rw [(allocFrom_spec (.start n arr pool) 0 [] constructed).1]
    exact Nat.succ_pos _
  let l₂ : Lifecycle := { l₁ with
    kernel := l₁.kernel.setRequest 0 (assign (l₁.kernel.request 0) f) }
  have hfill : lifeStep l₁ (.kernel (.fill 0 f)) = some l₂ := by
    rw [lifeStep, if_pos ⟨rfl, rfl⟩, step, if_pos hpos]
    rfl
  have hfree : lifeStep l₂ (.free 0) = some { l₂ with
      freed := Function.update l₂.freed 0 true
      slab := [l₂.kernel.request 0] } := by
    rw [lifeStep, if_pos ⟨hpos, rfl⟩]
    rfl
  refine ⟨[.alloc 0 [] (some .fresh), .kernel (.fill 0 f), .free 0], _, l₁.kernel.request 0,
    StepRun.run_cons_iff.mpr ⟨l₁, rfl, StepRun.run_cons_iff.mpr ⟨l₂, hfill,
      StepRun.run_cons_iff.mpr ⟨_, hfree, rfl⟩⟩⟩, ?_⟩
  change [Function.update l₁.kernel.request 0 (assign (l₁.kernel.request 0) f) 0] = _
  rw [Function.update_self]

/-- What the next client submits shows the fields of the last holder. -/
theorem NothingLeft.same (h : NothingLeft n arr pool dataSize serviceName p)
    (f f' : ClientFields) : ∃ base base',
      submission pool .zeroed (p.apply (issued dataSize serviceName (assign base f))) =
        submission pool .zeroed (p.apply (issued dataSize serviceName (assign base' f'))) := by
  obtain ⟨history, l, base, hrun, hslab⟩ := exists_leftover n arr pool f
  obtain ⟨history', l', base', hrun', hslab'⟩ := exists_leftover n arr pool f'
  have hstep {l : Lifecycle} {o : QhgpuRequest} (hslab : l.slab = [o]) :
      lifeStep l (.alloc dataSize serviceName (some (.reuse 0))) = some { l with
        kernel := allocFrom l.kernel dataSize serviceName o
        slab := [] } := by
    rw [lifeStep, hslab]
    rfl
  have heq := h history history' _ _ l l' _ _ .zeroed hrun hrun' (hstep hslab) (hstep hslab')
  dsimp only at heq
  rw [allocFrom_gmpool, allocFrom_gmpool, gmpool_of_run hrun, gmpool_of_run hrun',
    submission_allocFrom, submission_allocFrom] at heq
  exact ⟨base, base', heq⟩

/-- Two pointers that `fill_ku_request` keeps apart: the window is shorter than 4 GiB. -/
theorem exists_rebasePtr_ne (gmp : QhgpuMempool) : ∃ x y : Word,
    gmp.rebasePtr x ≠ gmp.rebasePtr y := by
  have outside {x : Word} (h : x.toNat < gmp.kva.toNat ∨
      gmp.kva.toNat + gmp.byteSize.toNat ≤ x.toNat) : gmp.rebasePtr x = x := by
    rw [QhgpuMempool.rebasePtr, if_neg]
    rw [QhgpuMempool.rebases, addrWithin, Bool.and_eq_true, decide_eq_true_eq,
      decide_eq_true_eq, BitVec.le_def, BitVec.lt_def, BitVec.toNat_add]
    rintro ⟨hle, hlt⟩
    have := Nat.mod_le (gmp.kva.toNat + gmp.byteSize.toNat) (2 ^ 64)
    omega
  have hsize : gmp.byteSize.toNat < 2 ^ 32 := by
    simp only [QhgpuMempool.byteSize, BitVec.toNat_setWidth, BitVec.toNat_shiftLeft]
    omega
  by_cases hlow : gmp.kva.toNat < 2
  · refine ⟨0x8000000000000000#64, 0x8000000000000001#64, ?_⟩
    rw [outside, outside]
    · decide
    · exact Or.inr (by change _ ≤ 0x8000000000000001; omega)
    · exact Or.inr (by change _ ≤ 0x8000000000000000; omega)
  · refine ⟨0, 1, ?_⟩
    rw [outside, outside]
    · decide
    · exact Or.inl (by change 1 < _; omega)
    · exact Or.inl (by change 0 < _; omega)

/-- A holder that clears every field. -/
def clearFields : ClientFields where
  inp := 0
  out := 0
  udata := 0
  kdata := 0
  insize := 0
  outsize := 0
  udatasize := 0
  mmapSize := 0
  batchSize := 0
  serviceName := List.replicate qhgpuServiceNameSize 0
  callback := none
  module := 0

/-- A byte behind a short name is the one that was there. -/
theorem getElem?_strcpy {dst src : List UInt8} {i : Nat} (h : (cstr src).length < i) :
    (strcpy dst src)[i]? = dst[i]? := by
  obtain ⟨k, rfl⟩ : ∃ k, i = (cstr src).length + (k + 1) := ⟨i - (cstr src).length - 1, by omega⟩
  rw [strcpy, List.getElem?_append_right (Nat.le_add_right _ _), Nat.add_sub_cancel_left,
    List.getElem?_cons_succ, List.getElem?_drop]
  congr 1
  omega

/-- What a submission shows of the last holder is the same for any two of them. -/
theorem NothingLeft.shown {β : Type} (h : NothingLeft n arr pool dataSize serviceName p)
    (get : Submission → β) (value : ClientFields → β)
    (hget : ∀ base f, get (submission pool .zeroed
      (p.apply (issued dataSize serviceName (assign base f)))) = value f)
    (f f' : ClientFields) : value f = value f' := by
  obtain ⟨base, base', heq⟩ := h.same f f'
  calc value f = get (submission pool .zeroed
        (p.apply (issued dataSize serviceName (assign base f)))) := (hget base f).symm
    _ = get (submission pool .zeroed
        (p.apply (issued dataSize serviceName (assign base' f')))) := congrArg get heq
    _ = value f' := hget base' f'

private theorem setsAll_of_nothingLeft (h : NothingLeft n arr pool dataSize serviceName p) :
    p.SetsAll serviceName := by
  obtain ⟨x, y, hxy⟩ := exists_rebasePtr_ne pool
  have zero_ne_one : (0 : Word) ≠ 1 := by decide
  constructor
  · intro hnone
    apply hxy
    apply h.shown (·.kureq.inp) (fun f ↦ pool.rebasePtr f.inp) _
      { clearFields with inp := x } { clearFields with inp := y }
    simp [submission, fillKuRequest, Assignment.apply, issued, assign, hnone]
  · intro hnone
    apply hxy
    apply h.shown (·.kureq.out) (fun f ↦ pool.rebasePtr f.out) _
      { clearFields with out := x } { clearFields with out := y }
    simp [submission, fillKuRequest, Assignment.apply, issued, assign, hnone]
  · intro hnone
    apply hxy
    apply h.shown (·.kureq.data) (fun f ↦ pool.rebasePtr f.udata) _
      { clearFields with udata := x } { clearFields with udata := y }
    simp [submission, fillKuRequest, Assignment.apply, issued, assign, hnone]
  · intro hnone
    apply zero_ne_one
    apply Kdata.client.inj
    apply h.shown (·.kdata) (fun f ↦ .client f.kdata) _ clearFields { clearFields with kdata := 1 }
    simp [submission, Assignment.apply, issued, assign, hnone]
  · intro hnone
    apply zero_ne_one
    apply h.shown (·.kureq.insize) (·.insize) _ clearFields { clearFields with insize := 1 }
    simp [submission, fillKuRequest, Assignment.apply, issued, assign, hnone]
  · intro hnone
    apply zero_ne_one
    apply h.shown (·.kureq.outsize) (·.outsize) _ clearFields { clearFields with outsize := 1 }
    simp [submission, fillKuRequest, Assignment.apply, issued, assign, hnone]
  · intro hnone
    apply zero_ne_one
    apply h.shown (·.kureq.datasize) (·.udatasize) _ clearFields { clearFields with udatasize := 1 }
    simp [submission, fillKuRequest, Assignment.apply, issued, assign, hnone]
  · intro hnone
    have hcallback := h.shown (·.callback) (fun f ↦ Callback.ofClient f.callback)
      (by simp [submission, Assignment.apply, issued, assign, hnone]) clearFields
      { clearFields with callback := some 0 }
    cases hcallback
  · intro hnone
    apply zero_ne_one
    apply h.shown (·.module) (·.module) _ clearFields { clearFields with module := 1 }
    simp [submission, Assignment.apply, issued, assign, hnone]
  · by_contra hname
    rw [not_or, not_not, Nat.not_le] at hname
    obtain ⟨hnone, hshort⟩ := hname
    -- the last byte of the array is behind the name
    have hlast := h.shown (·.kureq.serviceName[qhgpuServiceNameSize - 1]?)
      (·.serviceName[qhgpuServiceNameSize - 1]?) ?_ clearFields
      { clearFields with serviceName := List.replicate qhgpuServiceNameSize 1 }
    · revert hlast
      decide
    · intro base f
      simp only [submission, fillKuRequest, Assignment.apply, hnone, Option.getD_none, issued,
        assign]
      rw [List.getElem?_take_of_lt (by decide), getElem?_strcpy (by omega)]

/-- For a given name and set of fields, nothing of earlier holders is visible exactly when the
client sets every field that `qhgpu_alloc_request` does not determine. -/
theorem nothingLeft_iff (n : Nat) (arr : Int → Word) (pool : QhgpuMempool) (dataSize : Int)
    (serviceName : List UInt8) (p : Assignment) :
    NothingLeft n arr pool dataSize serviceName p ↔ p.SetsAll serviceName :=
  ⟨setsAll_of_nothingLeft, nothingLeft_of_setsAll⟩

/-- A client that sets nothing. -/
def untouched : Assignment :=
  ⟨none, none, none, none, none, none, none, none, none, none, none, none⟩

/-- The callback that a holder set stays in place for one that sets none. -/
theorem not_nothingLeft_callback : ¬∀ (n : Nat) (arr : Int → Word) (pool : QhgpuMempool)
    (dataSize : Int) (serviceName : List UInt8) (p : Assignment),
      NothingLeft n arr pool dataSize serviceName p := by
  intro hall
  obtain ⟨_, _, heq⟩ := (hall 1 (fun _ ↦ 0) .zeroed 1 [] untouched).same clearFields
    { clearFields with callback := some 0 }
  have hfield := congrArg (·.callback) heq
  cases hfield

end QHGPU.Kernel
