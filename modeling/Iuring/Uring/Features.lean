import Iuring.Safety.Entries

/-!
# The operations that the kernel supports

`init` asks the kernel which operations it supports, and stops the process unless seven of them are
among these.  The seven are the operations that entries are ever filled with, no more and no fewer.

* `UringFeature`, `convertUringOpToFeature`, `ProbeUringFeatures` : the probe.
* `probeFeatures` : what `init` asserts of it.
* `SqeOp.opcode` : the operation that is in an entry.
* `probe_covers` : the probe passes if and only if in every run every request is for an operation
  that the kernel supports.
-/

namespace Iuring

open Reactive

/-! ### The probe -/

/-- `UringFeature`, without the one that the library at hand has no operation for. -/
inductive UringFeature
  | unknown
  | nop
  | readv
  | writev
  | fsync
  | readFixed
  | writeFixed
  | pollAdd
  | pollRemove
  | syncFileRange
  | sendmsg
  | recvmsg
  | timeout
  | timeoutRemove
  | accept
  | asyncCancel
  | linkTimeout
  | connect
  | fallocate
  | openat
  | close
  | filesUpdate
  | statx
  | read
  | write
  | fadvise
  | madvise
  | send
  | recv
  | openat2
  | epollCtl
  | splice
  | provideBuffers
  | removeBuffers
  | tee
  | shutdown
  | renameat
  | unlinkat
  | mkdirat
  | symlinkat
  | linkat
  deriving DecidableEq, Repr

/-- `convert_uring_op_to_feature`; the numbers are those of the kernel's `IORING_OP_*`. -/
def convertUringOpToFeature : ℕ → UringFeature
  | 0 => .nop
  | 1 => .readv
  | 2 => .writev
  | 3 => .fsync
  | 4 => .readFixed
  | 5 => .writeFixed
  | 6 => .pollAdd
  | 7 => .pollRemove
  | 8 => .syncFileRange
  | 9 => .sendmsg
  | 10 => .recvmsg
  | 11 => .timeout
  | 12 => .timeoutRemove
  | 13 => .accept
  | 14 => .asyncCancel
  | 15 => .linkTimeout
  | 16 => .connect
  | 17 => .fallocate
  | 18 => .openat
  | 19 => .close
  | 20 => .filesUpdate
  | 21 => .statx
  | 22 => .read
  | 23 => .write
  | 24 => .fadvise
  | 25 => .madvise
  | 26 => .send
  | 27 => .recv
  | 28 => .openat2
  | 29 => .epollCtl
  | 30 => .splice
  | 31 => .provideBuffers
  | 32 => .removeBuffers
  | 33 => .tee
  | 34 => .shutdown
  | 35 => .renameat
  | 36 => .unlinkat
  | 37 => .mkdirat
  | 38 => .symlinkat
  | 39 => .linkat
  | _ => .unknown

/-- An `io_uring_probe_op`. -/
structure ProbeOp where
  op : UInt8
  flags : UInt16

/-- `flags & IO_URING_OP_SUPPORTED`. -/
def ProbeOp.supported (o : ProbeOp) : Bool := o.flags &&& 1 != 0

/-- `m_features` of a `ProbeUringFeatures`: the keys of the map. -/
structure ProbeUringFeatures where
  features : UringFeature → Bool

namespace ProbeUringFeatures

/-- The body of the loop of the constructor. -/
def add (features : UringFeature → Bool) (o : ProbeOp) : UringFeature → Bool :=
  if o.supported = false then features
  else Function.update features (convertUringOpToFeature o.op.toNat) true

/-- The constructor.  There is no probe if the kernel does not know how to make one. -/
def create (probe : Option (List ProbeOp)) : Except Stop ProbeUringFeatures :=
  match probe with
  | none => .error .abort
  | some ops => .ok ⟨ops.foldl add fun _ => false⟩

/-- `supports`. -/
def supports (p : ProbeUringFeatures) (f : UringFeature) : Bool := p.features f

end ProbeUringFeatures

/-- `probe_features`. -/
def probeFeatures (probe : Option (List ProbeOp)) : Except Stop Unit := do
  let probe ← ProbeUringFeatures.create probe
  assert (probe.supports .accept = true)
  assert (probe.supports .recv = true)
  assert (probe.supports .recvmsg = true)
  assert (probe.supports .send = true)
  assert (probe.supports .sendmsg = true)
  assert (probe.supports .close = true)
  assert (probe.supports .connect = true)

/-! ### Operations in entries -/

/-- The operation that the `io_uring_prep_*` function writes into an entry. -/
def SqeOp.opcode : SqeOp → ℕ
  | .close _ => 19
  | .accept _ _ => 13
  | .connect _ _ => 16
  | .recv _ _ _ => 27
  | .recvmsgMultishot _ _ => 10
  | .send _ _ _ => 26
  | .sendmsg _ _ => 9

/-- The kernel has reported an operation as supported. -/
def Supported (ops : List ProbeOp) (op : ℕ) : Prop :=
  ∃ o ∈ ops, o.op.toNat = op ∧ o.supported = true

/-- The operations that the assertions are about. -/
def probedOps : List ℕ := [13, 27, 10, 26, 9, 19, 16]

theorem SqeOp.opcode_mem (op : SqeOp) : op.opcode ∈ probedOps := by
  cases op <;> simp [opcode, probedOps]

/-! ### What is probed -/

theorem lt_of_convert {op : ℕ} (h : convertUringOpToFeature op ≠ .unknown) : op < 40 := by
  by_contra hge
  refine h ?_
  unfold convertUringOpToFeature
  split <;> first | rfl | exact absurd (by decide) hge

/-- Two operations do not have one feature, unless it is `unknown`. -/
theorem convertUringOpToFeature_inj {op op' : ℕ}
    (h : convertUringOpToFeature op = convertUringOpToFeature op')
    (hne : convertUringOpToFeature op ≠ .unknown) : op = op' := by
  have hall : ∀ a < 40, ∀ b < 40,
      convertUringOpToFeature a = convertUringOpToFeature b → a = b := by decide +kernel
  exact hall op (lt_of_convert hne) op' (lt_of_convert (h ▸ hne)) h

/-- The keys of the map are the features of the supported operations. -/
theorem supports_iff {ops : List ProbeOp} {p : ProbeUringFeatures}
    (h : ProbeUringFeatures.create (some ops) = .ok p) (f : UringFeature) :
    p.supports f = true ↔
      ∃ o ∈ ops, o.supported = true ∧ convertUringOpToFeature o.op.toNat = f := by
  cases h
  -- the loop, with any map to start from
  have hloop : ∀ first : UringFeature → Bool, (ops.foldl ProbeUringFeatures.add first) f = true ↔
      first f = true ∨ ∃ o ∈ ops, o.supported = true ∧ convertUringOpToFeature o.op.toNat = f := by
    induction ops with
    | nil => simp
    | cons o ops ih =>
      intro first
      rw [List.foldl_cons, ih]
      by_cases ho : o.supported = false
      · simp [ProbeUringFeatures.add, ho]
      · by_cases hf : convertUringOpToFeature o.op.toNat = f
        · simp [ProbeUringFeatures.add, ho, hf]
        · simp [ProbeUringFeatures.add, ho, hf, Function.update_of_ne (Ne.symm hf)]
  simpa [ProbeUringFeatures.supports] using hloop fun _ => false

/-- An operation is supported if the feature that it converts to is. -/
theorem supports_op_iff {ops : List ProbeOp} {p : ProbeUringFeatures}
    (h : ProbeUringFeatures.create (some ops) = .ok p) {op : ℕ}
    (hne : convertUringOpToFeature op ≠ .unknown) :
    p.supports (convertUringOpToFeature op) = true ↔ Supported ops op := by
  rw [supports_iff h]
  constructor
  · rintro ⟨o, ho, hs, hc⟩
    exact ⟨o, ho, convertUringOpToFeature_inj hc (hc ▸ hne), hs⟩
  · rintro ⟨o, ho, rfl, hs⟩
    exact ⟨o, ho, hs, rfl⟩

/-- The assertions of `init`. -/
theorem probeFeatures_ok_iff (probe : Option (List ProbeOp)) :
    probeFeatures probe = .ok () ↔
      ∃ ops, probe = some ops ∧ ∀ op ∈ probedOps, Supported ops op := by
  cases probe with
  | none => simp [probeFeatures, ProbeUringFeatures.create]
  | some ops =>
    obtain ⟨p, hp⟩ : ∃ p, ProbeUringFeatures.create (some ops) = .ok p := ⟨_, rfl⟩
    have hop : ∀ op f, convertUringOpToFeature op = f → f ≠ .unknown →
        (p.supports f = true ↔ Supported ops op) := by
      rintro op f rfl hne
      exact supports_op_iff hp hne
    simp only [probeFeatures, hp, except_ok_bind, except_bind_eq_ok, assert_eq_ok, exists_const,
      hop 13 .accept rfl (by decide), hop 27 .recv rfl (by decide),
      hop 10 .recvmsg rfl (by decide), hop 26 .send rfl (by decide),
      hop 9 .sendmsg rfl (by decide), hop 19 .close rfl (by decide),
      hop 16 .connect rfl (by decide), Option.some.injEq, exists_eq_left', probedOps,
      List.forall_mem_cons, List.not_mem_nil, false_implies, implies_true, and_true]

/-! ### What is used -/

/-- A run with one request of each operation. -/
def everyOpRun : List Label :=
  [.client (.submitAccept tcpSocket (some 1)), .client (.submitRecv tcpSocket (some 2)),
    .client (.submitRecv udpSocket (some 3)), .client (.ackuireSendWorkitem tcpSocket),
    .client (.ackuireSendWorkitem udpSocket), .client (.submitStreamData 3 (some 4)),
    .client (.submitPacket 4 ⟨.ofSockaddrIn IPAddress.loopback, 46, 64⟩ (some 5)),
    .client (.submitClose tcpSocket (some 6)),
    .client (.submitConnect tcpSocket (.ofSockaddrIn IPAddress.loopback) (some 7))]

theorem exists_everyOp : ∃ c, machine.Reachable (start plainBoot) c ∧
    c.state.requests.map (fun t => t.op.opcode) = probedOps := by
  have hrun : (machine.run (start plainBoot) everyOpRun).any (fun c =>
      c.state.requests.map (fun t => t.op.opcode) = probedOps) = true := by decide +kernel
  obtain ⟨c, hc, hP⟩ := (Option.any_eq_true _ _).1 hrun
  exact ⟨c, Machine.reachable_of_run hc, of_decide_eq_true hP⟩

/-- **The probe covers what is used**: `init` passes its assertions if and only if, in every run
that follows, every request is for an operation that the kernel has reported as supported. -/
theorem probe_covers (probe : Option (List ProbeOp)) : probeFeatures probe = .ok () ↔
    ∃ ops, probe = some ops ∧ ∀ b c, machine.Reachable (start b) c →
      ∀ t ∈ c.state.requests, Supported ops t.op.opcode := by
  rw [probeFeatures_ok_iff]
  refine exists_congr fun ops => and_congr_right fun _ =>
    ⟨fun h b c _ t _ => ?_, fun h op hop => ?_⟩
  · exact h _ t.op.opcode_mem
  · obtain ⟨c, hc, hops⟩ := exists_everyOp
    rw [← hops] at hop
    obtain ⟨t, ht, rfl⟩ := List.mem_map.1 hop
    exact h plainBoot c hc t ht

end Iuring
