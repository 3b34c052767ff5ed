import Iuring.Safety.Ledger

/-!
# Receive buffers are owned once, and are not lost

The dispatcher gives a buffer back to the ring for every completion that it brings to a receive
without a failure, and for no other.  That is right as long as these are the completions that
carry a buffer.

* `owned_once`, `not_ownedOnce` : no buffer is owned twice as long as every completion of the first
  kind carries a buffer, and one that does not breaks this.
* `no_loss`, `not_noLoss` : no buffer is lost as long as every completion that carries a buffer is
  of the first kind and no entry is added to a full ring, and one that is not breaks this.
-/

namespace Iuring

open Reactive

/-! ### No buffer is owned twice -/

/-- A buffer is given back only during the dispatch of a completion that carries it. -/
def Taken : Event → List Event → Prop
  | .recycle bid, past => ∃ cqe, current past = some cqe ∧ cqe.fBuffer = true ∧ cqe.bid = bid
  | _, _ => True

/-- No buffer is owned twice. -/
structure OwnedOnce (c : Process) : Prop where
  /-- advertised buffers, and those of completions that have not been dispatched, are distinct -/
  distinct : (c.state.advertised ++ attached (undispatched c)).Nodup
  /-- every buffer that was given back had been taken by the completion being dispatched -/
  taken : Along Taken c.state.log

/-- The invariant. -/
structure OwnedOnceAt (s : Sys) (fs : List Frame) : Prop where
  polling : Polling s fs
  wf : s.bufRing.WF
  nodup : s.owned.Nodup
  lt : ∀ b ∈ s.owned, b < BUFFERS / 2
  taken : Along Taken s.log
  running : ∀ f ∈ fs, f.Recycles → f.cqe.fBuffer = true

namespace OwnedOnceAt

variable {s s' : Sys} {fs fs' : List Frame} {l : Label}

theorem initial (b : Boot) : OwnedOnceAt (Sys.initial b) [] := by
  obtain ⟨hown, hwf⟩ := owned_initial b
  refine ⟨.initial b, hwf, hown ▸ List.nodup_range, fun x hx => ?_, trivial,
    fun _ hf => by cases hf⟩
  rw [hown] at hx
  exact List.mem_range.1 hx

/-- There are fewer buffers than slots in the ring. -/
theorem size_lt (h : OwnedOnceAt s fs) : s.bufRing.size < BUFFERS := by
  have hsub : s.owned.Subperm (List.range (BUFFERS / 2)) :=
    h.nodup.subperm fun b hb => List.mem_range.2 (h.lt b hb)
  have hle := hsub.length_le
  rw [Sys.owned, List.length_append, length_advertised, List.length_range] at hle
  have hhalf : BUFFERS / 2 < BUFFERS := by decide
  omega

/-- **Every step keeps the buffers distinct**, if a completion for which a buffer is given back
carries one. -/
theorem step (h : OwnedOnceAt s fs) (hs : Step s fs l s' fs') (hf : FlatAt fs l)
    (hC : l = .poll → ∀ cqe, s.peek = some cqe → GivesBuffer s cqe → cqe.fBuffer = true) :
    OwnedOnceAt s' fs' := by
  have hpoll' := h.polling.step hs hf
  have hpassive : ∀ {e : Event}, e.passive = true → ∀ past, Taken e past := fun {e} he past => by
    cases e <;> trivial
  cases bufferStep_of_step h.polling h.wf hs hf with
  | kept es hown hwf hsize hlog hes hfs =>
    refine ⟨hpoll', hwf, hown.nodup_iff.2 h.nodup, fun b hb => h.lt b (hown.subset hb), ?_, ?_⟩
    · rw [hlog]
      exact h.taken.append fun e he => hpassive (hes e he)
    · rcases hfs with ⟨rfl, -⟩ | ⟨f, rfl, hl, hp, hrec, -⟩
      · exact h.running
      · intro g hg hr
        obtain rfl := List.mem_singleton.1 hg
        exact hC hl _ hp (hrec.1 hr)
  | passed cqe give es es' ring idx hq hring hlog hes hes' hcur hfs hgive =>
    have hgive' : give = true → cqe.fBuffer = true := by
      rcases hgive with ⟨hl, hp, hg, -⟩ | ⟨f, rfl, rfl, hg⟩
      · exact fun hgt => hC hl cqe hp (hg.1 hgt)
      · exact fun hgt => h.running f List.mem_cons_self (hg.1 hgt)
    obtain ⟨hperm, hwf⟩ := owned_passed h.wf hq hring fun _ => h.size_lt
    -- what is owned afterwards was owned before
    have hsub : s'.owned.Subperm s.owned := by
      cases give with
      | false => exact (List.sublist_append_right _ _).subperm.trans hperm.subperm
      | true =>
        rw [hgive' rfl] at hperm
        exact (List.perm_append_left_iff _ |>.1 hperm).subperm
    obtain ⟨l', hl', hsl⟩ := hsub
    refine ⟨hpoll', hwf, hl'.nodup_iff.1 (hsl.nodup h.nodup),
      fun b hb => h.lt b (hsl.subset (hl'.symm.subset hb)), ?_, fun f hf => ?_⟩
    · rw [hlog]
      refine ⟨trivial, Along.append ?_ fun e he past => ?_⟩
      · have hpast := h.taken.append fun e he => hpassive (hes' e he)
        cases give with
        | false => exact hpast
        | true => exact ⟨⟨cqe, hcur, hgive' rfl, rfl⟩, hpast⟩
      · have := hes e he
        cases e <;> trivial
    · rw [hfs] at hf
      cases hf

end OwnedOnceAt

/-- Polls are not nested, and a completion that is brought to a receive without a failure carries
a buffer. -/
def CarriesBuffer (c : Process) (l : Label) : Prop :=
  Flat c l ∧ Dispatches (fun s cqe => GivesBuffer s cqe → cqe.fBuffer = true) c l

instance (c : Process) (l : Label) : Decidable (CarriesBuffer c l) :=
  inferInstanceAs (Decidable (_ ∧ _))

/-- **No receive buffer is owned twice**, as long as every completion that is brought to a receive
without a failure carries a buffer. -/
theorem owned_once (b : Boot) (c : Process) (h : machine.Under CarriesBuffer (start b) c) :
    OwnedOnce c := by
  obtain ⟨fs, hst, hinv⟩ := exists_frames (I := OwnedOnceAt) h (.initial b)
    fun c fs l s' fs' _ hst hi hC hs =>
      hi.step hs (hC.1.at hst) fun hl cqe hp => by subst hl; exact hC.2 cqe hp
  refine ⟨?_, hinv.taken⟩
  rw [undispatched_eq hst]
  refine List.Nodup.sublist (List.Sublist.append_left ?_ _) hinv.nodup
  exact ((List.drop_sublist _ _).filter _).map _

/-- A buffer that was not taken has been given back, or will be when the handler returns. -/
def Overdrawn (s : Sys) (fs : List Frame) : Prop :=
  ¬ Along Taken s.log ∨ ∃ f, fs = [f] ∧ f.Recycles ∧ f.cqe.fBuffer = false

/-- A completion without a buffer that is brought to a receive overdraws, and this is never
made good. -/
theorem overdrawn_step {s s' : Sys} {fs fs' : List Frame} {l : Label} (hf : FlatAt fs l)
    (h : BufferStep s fs l s' fs') (hd : Overdrawn s fs ∨ l = .poll ∧ ∃ cqe, s.peek = some cqe ∧
      GivesBuffer s cqe ∧ cqe.fBuffer = false) : Overdrawn s' fs' := by
  by_cases hbroken : Along Taken s.log
  swap
  · left
    obtain ⟨es, hlog⟩ := h.log
    rw [hlog]
    exact fun hall => hbroken hall.of_append
  cases h with
  | kept es hown hwf hsize hlog hes hfs =>
    rcases hd with (hnot | ⟨f, rfl, hr, hb⟩) | ⟨rfl, cqe, hp, hg, hb⟩
    · exact absurd hbroken hnot
    · rcases hfs with ⟨rfl, -⟩ | ⟨g, -, rfl, -⟩
      · exact .inr ⟨f, rfl, hr, hb⟩
      · cases hf
    · rcases hfs with ⟨-, hnone⟩ | ⟨g, rfl, -, hp', hrec, -⟩
      · cases (hnone rfl).symm.trans hp
      · obtain rfl := Option.some.inj (hp.symm.trans hp')
        exact .inr ⟨g, rfl, hrec.2 hg, hb⟩
  | passed cqe give es es' ring idx hq hring hlog hes hes' hcur hfs hgive =>
    -- the dispatch ends here, and gives back what it did not take
    obtain ⟨hgt, hb⟩ : give = true ∧ cqe.fBuffer = false := by
      rcases hd with (hnot | ⟨f, rfl, hr, hb⟩) | ⟨rfl, cqe', hp, hg, hb⟩
      · exact absurd hbroken hnot
      · rcases hgive with ⟨rfl, -⟩ | ⟨g, hfg, rfl, hrec⟩
        · cases hf
        · obtain rfl := List.singleton_injective hfg
          exact ⟨hrec.2 hr, hb⟩
      · rcases hgive with ⟨-, hp', hrec, -⟩ | ⟨g, rfl, -⟩
        · obtain rfl := Option.some.inj (hp.symm.trans hp')
          exact ⟨hrec.2 hg, hb⟩
        · cases hf
    left
    rw [hlog, hgt]
    intro hall
    obtain ⟨d, hd', hdb, -⟩ := (hall.2.of_append).1
    obtain rfl : cqe = d := Option.some.inj (hcur.symm.trans hd')
    rw [hb] at hdb
    cases hdb

/-- **A completion without a buffer that is brought to a receive makes a buffer owned twice**: when
its dispatch has ended, a buffer has been given back that was not taken. -/
theorem not_ownedOnce {b : Boot} {c c₁ c₂ : Process} {cqe : Cqe}
    (h : machine.Under Flat (start b) c) (hflat : Flat c .poll) (hp : c.state.peek = some cqe)
    (hg : GivesBuffer c.state cqe) (hb : cqe.fBuffer = false) (hnext : next c .poll = some c₁)
    (h₂ : machine.Under Flat c₁ c₂) (hnil : c₂.stack = []) : ¬ OwnedOnce c₂ := by
  obtain ⟨fs₂, hst₂, hover⟩ := ledger_of_poll h hflat hnext h₂
    (fun hat hledger => overdrawn_step hat hledger (.inr ⟨rfl, cqe, hp, hg, hb⟩))
    fun hat hledger hover => overdrawn_step hat hledger (.inl hover)
  obtain rfl := hst₂.nil_iff.1 hnil
  rcases hover with hnot | ⟨f, hf, -⟩
  · exact fun hown => hnot hown.taken
  · cases hf

/-- A stream receive is completed with a buffer and asks for more; the next completion is for a
datagram receive. -/
def carriedRun : List Label :=
  [.client (.submitRecv tcpSocket (some 1)), .client (.submitRecv udpSocket (some 2)),
    .post 0 { res := 5, flags := 1 }, .poll, .reply .reSubmit,
    .post 0 { res := 200, flags := 65539 }, .poll]

theorem owned_once_run : ∃ c,
    machine.guardedRun CarriesBuffer (start plainBoot) carriedRun = some c ∧
      (c.state.bufRing.size = 511 ∧ c.stack.length = 1) ∧ OwnedOnce c := by
  have hrun : (machine.guardedRun CarriesBuffer (start plainBoot) carriedRun).any
      (fun c => c.state.bufRing.size = 511 ∧ c.stack.length = 1) = true := by decide +kernel
  obtain ⟨c, hc, hP, hu⟩ := Machine.exists_of_guardedRun hrun
  exact ⟨c, hc, of_decide_eq_true hP, owned_once plainBoot c hu⟩

/-- A stream ends. -/
def endOfStreamRun : List Label :=
  [.client (.submitRecv tcpSocket (some 1)), .post 0 { res := 0 }, .poll, .reply .none]

/-- The buffer `0`, which no completion has taken, is advertised in the first slot and in the
last. -/
theorem owned_twice_run : ∃ c, machine.guardedRun Flat (start plainBoot) endOfStreamRun = some c ∧
    ¬ OwnedOnce c := by
  have hrun : (machine.guardedRun Flat (start plainBoot) endOfStreamRun).any (fun c =>
      c.state.bufRing.size = 513 ∧ c.state.bufRing.head = 0 ∧
        (c.state.bufRing.slots 0).bid = 0 ∧ (c.state.bufRing.slots 512).bid = 0) = true := by
    decide +kernel
  obtain ⟨c, hc, hP, -⟩ := Machine.exists_of_guardedRun hrun
  obtain ⟨hsize, hhead, hfirst, hlast⟩ := of_decide_eq_true hP
  refine ⟨c, hc, fun hown => ?_⟩
  have hnodup := List.Nodup.of_append_left hown.distinct
  rw [advertised_eq, hsize, hhead] at hnodup
  have hinj := List.inj_on_of_nodup_map hnodup (List.mem_range.2 (by decide : 0 < 513))
    (List.mem_range.2 (by decide : 512 < 513)) (hfirst.trans hlast.symm)
  exact absurd hinj (by decide)

/-! ### No buffer is lost -/

/-- When a dispatch ends, the buffer of its completion has been given back since it began. -/
def GivesBack : Event → List Event → Prop
  | .advance _ _, past => ∀ cqe, current past = some cqe → cqe.fBuffer = true →
      .recycle cqe.bid ∈ sinceDispatch past
  | _, _ => True

/-- No buffer is lost. -/
structure NoLoss (c : Process) : Prop where
  /-- every dispatch has given back the buffer of its completion -/
  givesBack : Along GivesBack c.state.log
  /-- each of the buffers that were advertised at the start is advertised, or attached to a
  completion that has not been passed (that of a running handler is passed when the handler has
  returned) -/
  inUse : (List.range (BUFFERS / 2)).Subperm c.state.owned

/-- A completion that carries a buffer is brought to a receive without a failure; and if it is, with
or without a buffer, so that an entry is added to the ring, then the ring is not full. -/
def Conserves (s : Sys) (cqe : Cqe) : Prop :=
  (cqe.fBuffer = true → GivesBuffer s cqe) ∧ (GivesBuffer s cqe → s.bufRing.size < BUFFERS)

instance (s : Sys) (cqe : Cqe) : Decidable (Conserves s cqe) :=
  inferInstanceAs (Decidable (_ ∧ _))

/-- The invariant.  An entry that is advertised is overwritten only if the ring is full. -/
structure NoLossAt (s : Sys) (fs : List Frame) : Prop where
  polling : Polling s fs
  wf : s.bufRing.WF
  inUse : (List.range (BUFFERS / 2)).Subperm s.owned
  givesBack : Along GivesBack s.log
  running : ∀ f ∈ fs, (f.cqe.fBuffer = true → f.Recycles) ∧
    (f.Recycles → s.bufRing.size < BUFFERS)

namespace NoLossAt

variable {s s' : Sys} {fs fs' : List Frame} {l : Label}

theorem initial (b : Boot) : NoLossAt (Sys.initial b) [] := by
  obtain ⟨hown, hwf⟩ := owned_initial b
  exact ⟨.initial b, hwf, hown ▸ List.Subperm.refl _, trivial, fun _ hf => by cases hf⟩

/-- **Every step keeps the buffers**, if the completions that are dispatched conserve them. -/
theorem step (h : NoLossAt s fs) (hs : Step s fs l s' fs') (hf : FlatAt fs l)
    (hC : l = .poll → ∀ cqe, s.peek = some cqe → Conserves s cqe) : NoLossAt s' fs' := by
  have hpoll' := h.polling.step hs hf
  have hpassive : ∀ {e : Event}, e.passive = true → ∀ past, GivesBack e past := by
    intro e he past
    cases e <;> trivial
  cases bufferStep_of_step h.polling h.wf hs hf with
  | kept es hown hwf hsize hlog hes hfs =>
    refine ⟨hpoll', hwf, h.inUse.trans hown.symm.subperm, ?_, ?_⟩
    · rw [hlog]
      exact h.givesBack.append fun e he => hpassive (hes e he)
    · intro g hg
      rcases hfs with ⟨rfl, -⟩ | ⟨f, rfl, hl, hp, hrec, -⟩
      · obtain ⟨hgives, hroom⟩ := h.running g hg
        exact ⟨hgives, fun hr => hsize.trans_lt (hroom hr)⟩
      · obtain rfl := List.mem_singleton.1 hg
        obtain ⟨hgives, hroom⟩ := hC hl _ hp
        exact ⟨fun hb => hrec.2 (hgives hb), fun hr => hsize.trans_lt (hroom (hrec.1 hr))⟩
  | passed cqe give es es' ring idx hq hring hlog hes hes' hcur hfs hgive =>
    obtain ⟨hgives, hroom⟩ : (cqe.fBuffer = true → give = true) ∧
        (give = true → s.bufRing.size < BUFFERS) := by
      rcases hgive with ⟨hl, hp, hg, -⟩ | ⟨f, rfl, rfl, hg⟩
      · obtain ⟨hgives, hroom⟩ := hC hl cqe hp
        exact ⟨fun hb => hg.2 (hgives hb), fun hgt => hroom (hg.1 hgt)⟩
      · obtain ⟨hgives, hroom⟩ := h.running f List.mem_cons_self
        exact ⟨fun hb => hg.2 (hgives hb), fun hgt => hroom (hg.1 hgt)⟩
    obtain ⟨hperm, hwf⟩ := owned_passed h.wf hq hring hroom
    refine ⟨hpoll', hwf, h.inUse.trans ?_, ?_, ?_⟩
    · -- a buffer that the completion carries is given back, so none is missing afterwards
      cases hb : cqe.fBuffer with
      | true =>
        rw [hb, hgives hb] at hperm
        exact ((List.perm_append_left_iff _).1 hperm).symm.subperm
      | false =>
        rw [hb] at hperm
        exact (List.sublist_append_right _ _).subperm.trans hperm.symm.subperm
    · rw [hlog]
      refine ⟨fun d hd hb => ?_, Along.append ?_ fun e he past => ?_⟩
      · have hcur' : current ((if give then [.recycle cqe.bid] else []) ++ (es' ++ s.log)) =
            some cqe := by
          cases give with
          | false => exact hcur
          | true => exact hcur
        rw [current_append hes, hcur'] at hd
        obtain rfl := Option.some.inj hd
        rw [sinceDispatch_append hes, hgives hb]
        exact List.mem_append_right _ List.mem_cons_self
      · have hpast := h.givesBack.append fun e he => hpassive (hes' e he)
        cases give with
        | false => exact hpast
        | true => exact ⟨trivial, hpast⟩
      · have := hes e he
        cases e <;> trivial
    · intro f hf
      rw [hfs] at hf
      cases hf

end NoLossAt

/-- Polls are not nested, and the completions that are dispatched conserve the buffers. -/
def ConservesBuffers (c : Process) (l : Label) : Prop := Flat c l ∧ Dispatches Conserves c l

instance (c : Process) (l : Label) : Decidable (ConservesBuffers c l) :=
  inferInstanceAs (Decidable (_ ∧ _))

/-- **No receive buffer is lost**, as long as every completion that carries a buffer is brought to
a receive without a failure, and no entry is added to a full ring. -/
theorem no_loss (b : Boot) (c : Process) (h : machine.Under ConservesBuffers (start b) c) :
    NoLoss c := by
  obtain ⟨fs, -, hinv⟩ := exists_frames (I := NoLossAt) h (.initial b)
    fun c fs l s' fs' _ hst hi hC hs => hi.step hs (hC.1.at hst) fun hl => by
      subst hl
      exact hC.2
  exact ⟨hinv.givesBack, hinv.inUse⟩

/-- A buffer has not been given back by the dispatch of its completion, or will not be. -/
def Withheld (s : Sys) (fs : List Frame) : Prop :=
  ¬ Along GivesBack s.log ∨ ∃ f, fs = [f] ∧ ¬ f.Recycles ∧ f.cqe.fBuffer = true ∧
    ∀ e ∈ sinceDispatch s.log, e.passive = true

/-- A buffer whose completion is not brought to a receive is withheld for good. -/
theorem withheld_step {s s' : Sys} {fs fs' : List Frame} {l : Label} (hf : FlatAt fs l)
    (h : BufferStep s fs l s' fs') (hd : Withheld s fs ∨ l = .poll ∧ ∃ cqe, s.peek = some cqe ∧
      ¬ GivesBuffer s cqe ∧ cqe.fBuffer = true) : Withheld s' fs' := by
  by_cases hbroken : Along GivesBack s.log
  swap
  · left
    obtain ⟨es, hlog⟩ := h.log
    rw [hlog]
    exact fun hall => hbroken hall.of_append
  cases h with
  | kept es hown hwf hsize hlog hes hfs =>
    rcases hd with (hnot | ⟨f, rfl, hr, hb, hsince⟩) | ⟨rfl, cqe, hp, hg, hb⟩
    · exact absurd hbroken hnot
    · rcases hfs with ⟨rfl, -⟩ | ⟨g, -, rfl, -⟩
      · exact .inr ⟨f, rfl, hr, hb, hlog ▸ passive_sinceDispatch_append hes hsince⟩
      · cases hf
    · rcases hfs with ⟨-, hnone⟩ | ⟨g, rfl, -, hp', hrec, hsince⟩
      · cases (hnone rfl).symm.trans hp
      · obtain rfl := Option.some.inj (hp.symm.trans hp')
        exact .inr ⟨g, rfl, fun hr => hg (hrec.1 hr), hb, hsince⟩
  | passed cqe give es es' ring idx hq hring hlog hes hes' hcur hfs hgive =>
    -- the dispatch ends here, and has given nothing back
    obtain ⟨hgf, hb, hsince⟩ : give = false ∧ cqe.fBuffer = true ∧
        ∀ e ∈ sinceDispatch (es' ++ s.log), e.passive = true := by
      rcases hd with (hnot | ⟨f, rfl, hr, hb, hsince⟩) | ⟨rfl, cqe', hp, hg, hb⟩
      · exact absurd hbroken hnot
      · rcases hgive with ⟨rfl, -⟩ | ⟨g, hfg, rfl, hrec⟩
        · cases hf
        · obtain rfl := List.singleton_injective hfg
          exact ⟨Bool.eq_false_iff.2 fun hgt => hr (hrec.1 hgt), hb,
            passive_sinceDispatch_append hes' hsince⟩
      · rcases hgive with ⟨-, hp', hrec, hnil⟩ | ⟨g, rfl, -⟩
        · obtain rfl := Option.some.inj (hp.symm.trans hp')
          refine ⟨Bool.eq_false_iff.2 fun hgt => hg (hrec.1 hgt), hb, ?_⟩
          rw [hnil]
          exact fun e he => by cases he
        · cases hf
    left
    rw [hlog, hgf]
    intro hall
    have hmem := hall.1 cqe (by rw [current_append hes]; exact hcur) hb
    rw [sinceDispatch_append hes] at hmem
    rcases List.mem_append.1 hmem with hmem | hmem
    · cases hes _ hmem
    · cases hsince _ hmem

/-- **A buffer whose completion is not brought to a receive is lost**: when the dispatch of the
completion has ended, the buffer has not been given back. -/
theorem not_noLoss {b : Boot} {c c₁ c₂ : Process} {cqe : Cqe}
    (h : machine.Under Flat (start b) c) (hflat : Flat c .poll) (hp : c.state.peek = some cqe)
    (hg : ¬ GivesBuffer c.state cqe) (hb : cqe.fBuffer = true) (hnext : next c .poll = some c₁)
    (h₂ : machine.Under Flat c₁ c₂) (hnil : c₂.stack = []) : ¬ NoLoss c₂ := by
  obtain ⟨fs₂, hst₂, hwith⟩ := ledger_of_poll h hflat hnext h₂
    (fun hat hledger => withheld_step hat hledger (.inr ⟨rfl, cqe, hp, hg, hb⟩))
    fun hat hledger hwith => withheld_step hat hledger (.inl hwith)
  obtain rfl := hst₂.nil_iff.1 hnil
  rcases hwith with hnot | ⟨f, hf, -⟩
  · exact fun hno => hnot hno.givesBack
  · cases hf

/-- A datagram receive is completed twice, and a stream receive ends. -/
def conservedRun : List Label :=
  [.client (.submitRecv tcpSocket (some 1)), .client (.submitRecv udpSocket (some 2)),
    .post 1 { res := 200, flags := 3 }, .post 0 { res := 0 }, .poll, .reply .reSubmit, .poll,
    .reply .none]

theorem no_loss_run : ∃ c,
    machine.guardedRun ConservesBuffers (start plainBoot) conservedRun = some c ∧
      (c.state.cqHead = 2 ∧ c.state.bufRing.size = 513) ∧ NoLoss c := by
  have hrun : (machine.guardedRun ConservesBuffers (start plainBoot)
      conservedRun).any (fun c => c.state.cqHead = 2 ∧ c.state.bufRing.size = 513) = true := by
    decide +kernel
  obtain ⟨c, hc, hP, hu⟩ := Machine.exists_of_guardedRun hrun
  exact ⟨c, hc, of_decide_eq_true hP, no_loss plainBoot c hu⟩

/-- The handler of a datagram receive gives it up, and another datagram arrives. -/
def givenUpRun : List Label :=
  [.client (.submitRecv udpSocket (some 1)), .post 0 { res := 200, flags := 3 }, .poll,
    .reply .none, .post 0 { res := 200, flags := 65539 }, .poll]

/-- The second datagram finds no item, and its buffer is neither advertised nor attached. -/
theorem lost_run : ∃ c, machine.guardedRun Flat (start plainBoot) givenUpRun = some c ∧
    c.state.bufRing.size = 511 ∧ ¬ NoLoss c := by
  have hrun : (machine.guardedRun Flat (start plainBoot) givenUpRun).any (fun c =>
      c.state.bufRing.size = 511 ∧ attached c.state.queue = []) = true := by
    decide +kernel
  obtain ⟨c, hc, hP, -⟩ := Machine.exists_of_guardedRun hrun
  obtain ⟨hsize, hatt⟩ := of_decide_eq_true hP
  refine ⟨c, hc, hsize, fun hno => ?_⟩
  have hle := hno.inUse.length_le
  rw [Sys.owned, hatt, List.append_nil, length_advertised, hsize, List.length_range] at hle
  exact absurd hle (by decide)

end Iuring
