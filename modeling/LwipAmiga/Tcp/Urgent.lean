import LwipAmiga.Tcp.Send

/-!
# The urgent mark of a message

`sb_tcp_send` marks the last byte of a message by a flag of the `tcp_write` that queues it.
-/

open List TransitionSystem

namespace SendReq

/-- `SB_MSG_OOB`. -/
def oob : SendReq → Bool
  | .send _ o _ => o
  | .sendmsg _ o _ => o

def Flagged (data : List UInt8) : List (List UInt8 × Bool) → Prop
  | [] => True
  | b :: rest => b.2 = rest.isEmpty ∧ (b.1 = [] → data = []) ∧ Flagged data rest

theorem flagged_iov (data : List UInt8) (iov : List (List UInt8)) :
  ∀ k init last, last = (iov.zipIdx k).foldl (fun n b => if b.1.length ≠ 0 then b.2 else n) init →
    ∀ bs, bs = (iov.zipIdx k).filterMap (fun b =>
      if b.1.length = 0 then none else some (b.1, true && b.2 == last)) →
    Flagged data bs ∧ (bs = [] → last = init) ∧ (bs ≠ [] → k ≤ last)
  := by
  induction iov with
  | nil =>
    rintro k init last rfl bs rfl
    exact ⟨trivial, fun _ => rfl, fun h => absurd rfl h⟩
  | cons b iov ih =>
    intro k init last hlast bs hbs
    rw [List.zipIdx_cons, List.foldl_cons] at hlast
    rw [List.zipIdx_cons, List.filterMap_cons] at hbs
    by_cases hb : b.length = 0
    · simp only [hb, ne_eq, not_true_eq_false, if_false, if_true] at hlast hbs
      obtain ⟨hflagged, hnone, hsome⟩ := ih (k + 1) init last hlast bs hbs
      exact ⟨hflagged, hnone, fun h => (Nat.le_succ k).trans (hsome h)⟩
    · simp only [hb, ne_eq, not_false_eq_true, if_true, if_false] at hlast hbs
      obtain ⟨hflagged, hnone, hsome⟩ := ih (k + 1) k last hlast _ rfl
      rw [hbs]
      refine ⟨⟨?_, ?_, hflagged⟩, nofun, fun _ => ?_⟩
      · rw [Bool.true_and, Bool.eq_iff_iff, beq_iff_eq, List.isEmpty_iff]
        constructor
        · intro hk
          by_contra hne
          have := hsome hne
          omega
        · intro hnil
          rw [hnone hnil]
      · rintro rfl
        exact absurd rfl hb
      · by_cases hnil : (iov.zipIdx (k + 1)).filterMap (fun b =>
            if b.1.length = 0 then none else some (b.1, true && b.2 == last)) = []
        · rw [hnone hnil]
        · exact (Nat.le_succ k).trans (hsome hnil)

theorem flagged_buffers
    {req : SendReq} (h : req.oob = true) :
  Flagged req.data req.buffers
  := by
  cases req with
  | send buf oob dontwait =>
    cases h
    exact ⟨rfl, id, trivial⟩
  | sendmsg iov oob dontwait =>
    cases h
    exact (flagged_iov _ iov 0 0 _ rfl _ rfl).1

end SendReq

/-! ### Marks -/

def Unmarked (ws : List TcpWrite) : Prop :=
  ∀ v ∈ ws, v.urg = false

def MarkedOnce (ws : List TcpWrite) (msg : List UInt8) : Prop :=
  ∃ vs v, ws = vs ++ [v] ∧ Unmarked vs ∧ v.urg = true ∧ v.bytes ≠ [] ∧ v.bytes <:+ msg

namespace SendJob

def Marks (j : SendJob) (n : ℕ) : Prop :=
  n ≤ j.req.data.length ∧
  (n < j.req.data.length → Unmarked j.writes) ∧
  (j.req.data ≠ [] → n = j.req.data.length → MarkedOnce j.writes j.req.data)

structure Urgent (j : SendJob) (p : SendPass) : Prop extends j.Progress p where
  oob_eq : p.oob = (j.rest.isEmpty && !p.buf.isEmpty)
  nonempty : p.buf = [] → j.req.data = []
  flagged : SendReq.Flagged j.req.data j.rest
  unmarked : ¬ (p.oob = true ∧ p.sent = p.buf.length) → Unmarked j.writes
  marked : p.oob = true → p.sent = p.buf.length → MarkedOnce j.writes j.req.data

variable {j : SendJob} {p : SendPass}

theorem Urgent.length_eq (h : j.Urgent p) :
  j.req.data.length = j.total + (p.buf.length + (j.rest.map Prod.fst).flatten.length)
  := by
  have hleft := congrArg length h.left
  rw [length_drop, length_append] at hleft
  have htotal := h.total_le
  omega

theorem Urgent.rest_eq_nil
    (h : j.Urgent p) (hdata : j.req.data ≠ []) (hrest : (j.rest.map Prod.fst).flatten.length = 0) :
  j.rest = []
  := by
  have hflagged := h.flagged
  cases hj : j.rest with
  | nil => rfl
  | cons b rest =>
    rw [hj] at hflagged hrest
    rw [map_cons, flatten_cons, length_append] at hrest
    exact absurd (hflagged.2.1 (length_eq_zero_iff.mp (by omega))) hdata

theorem Urgent.marks (h : j.Urgent p) :
  j.Marks (j.total + p.sent)
  := by
  have hlen := h.length_eq
  have hsent := h.sent_le
  refine ⟨h.le_length, ?_, ?_⟩
  · intro hlt
    apply h.unmarked
    rintro ⟨hoob, hall⟩
    rw [h.oob_eq, Bool.and_eq_true, List.isEmpty_iff] at hoob
    rw [hoob.1] at hlen
    simp at hlen
    omega
  · intro hdata hn
    have hrest := h.rest_eq_nil hdata (by omega)
    have hbuf : p.buf ≠ [] := fun hnil => hdata (h.nonempty hnil)
    apply h.marked
    · simp [h.oob_eq, hrest, hbuf]
    · omega

theorem Urgent.marks_total
    (h : j.Urgent p) (hp : p.sent < p.buf.length ∨ p.sent = 0) :
  j.Marks j.total
  := by
  have hlen := h.length_eq
  have hunmarked : Unmarked j.writes := by
    apply h.unmarked
    rintro ⟨hoob, hall⟩
    rw [h.oob_eq, Bool.and_eq_true, Bool.not_eq_true', isEmpty_eq_false_iff] at hoob
    have := length_pos_iff.mpr hoob.2
    omega
  refine ⟨h.total_le, fun _ => hunmarked, ?_⟩
  intro hdata hn
  exact absurd (h.nonempty (length_eq_zero_iff.mp (by omega))) hdata

theorem Urgent.queue
    (h : j.Urgent p) {chunk : ℕ} (hlt : p.sent < p.buf.length)
    (hchunk : p.sent + chunk ≤ p.buf.length) :
  (j.queue p chunk).Urgent { p with sent := p.sent + chunk }
  := by
  have hbefore : Unmarked j.writes := h.unmarked fun hall => by omega
  refine { h.toProgress.queue hchunk with
    oob_eq := h.oob_eq, nonempty := h.nonempty, flagged := h.flagged, unmarked := ?_, marked := ?_ }
  · intro hnot v hv
    obtain hv | hv := List.mem_append.mp hv
    · exact hbefore v hv
    · rw [List.mem_singleton.mp hv]
      simp only [not_and] at hnot
      simp only [Bool.and_eq_false_imp, Bool.not_eq_true', decide_eq_false_iff_not]
      intro hmore
      rw [← Bool.not_eq_true]
      exact fun hoob => hnot hoob (by omega)
  · intro hoob hall
    change p.oob = true at hoob
    change p.sent + chunk = p.buf.length at hall
    have hbytes : (p.buf.drop p.sent).take chunk = p.buf.drop p.sent := by
      apply List.take_of_length_le
      rw [List.length_drop]
      omega
    refine ⟨j.writes, _, rfl, hbefore, ?_, ?_, ?_⟩
    · simp [hoob, hall]
    · rw [hbytes]
      intro hnil
      have := List.drop_eq_nil_iff.mp hnil
      omega
    · rw [hbytes]
      have hrest : j.rest = [] := by
        rw [h.oob_eq, Bool.and_eq_true, List.isEmpty_iff] at hoob
        exact hoob.1
      have hleft := h.left
      rw [hrest, List.map_nil, List.flatten_nil, List.append_nil] at hleft
      exact (List.drop_suffix _ _).trans (hleft ▸ List.drop_suffix _ _)

end SendJob

def sentCount : Except Errno ℕ → ℕ
  | .ok n => n
  | .error _ => 0

namespace SendCall

def sent : SendCall → Option (SendJob × ℕ)
  | .idle => none
  | .locking j p | .head j p | .asleep j p => some (j, j.total + p.sent)
  | .done j r => some (j, sentCount r)

def Urgent : SendCall → Prop
  | .idle => True
  | .locking j p | .head j p | .asleep j p => j.req.oob = true → j.Urgent p
  | .done j r => j.req.oob = true → j.Marks (sentCount r)

variable {j : SendJob} {p : SendPass}

theorem Urgent.marks
    {c : SendCall} (h : c.Urgent) {n : ℕ} (hsent : c.sent = some (j, n)) (hoob : j.req.oob = true) :
  j.Marks n
  := by
  cases c with
  | idle => cases hsent
  | done =>
    cases hsent
    exact h hoob
  | _ =>
    cases hsent
    exact (h hoob).marks

theorem urgent_pass
    {nonblock : Bool} (hok : j.req.oob = true → (j.pass nonblock).Ok)
    (hflagged : j.req.oob = true → SendReq.Flagged j.req.data j.rest)
    (hmarks : j.req.oob = true → j.rest = [] → j.Marks j.total)
    (hrest : j.req.oob = true → j.rest ≠ [] → Unmarked j.writes) :
  (j.pass nonblock).Urgent
  := by
  rw [SendJob.pass]
  split
  next hnil => exact fun hoob => hmarks hoob hnil
  next buf flag rest hcons =>
    intro hoob
    have hprogress := hok hoob
    have hlast := hflagged hoob
    rw [hcons] at hlast
    simp only [SendJob.pass, hcons] at hprogress
    refine ⟨hprogress, congrArg (· && !buf.isEmpty) hlast.1, hlast.2.1, hlast.2.2, ?_, ?_⟩
    · intro _
      apply hrest hoob
      rw [hcons]
      apply List.cons_ne_nil
    · intro hset hzero
      obtain rfl : buf = [] := length_eq_zero_iff.mp (Eq.symm hzero)
      simp at hset

theorem urgent_begin (req : SendReq) (nonblock : Bool) :
  (SendJob.begin req nonblock).Urgent
  := by
  apply urgent_pass fun _ => ok_begin req nonblock
  · exact SendReq.flagged_buffers
  · intro _ hnil
    have hdata := req.flatten_buffers
    change req.buffers = [] at hnil
    rw [hnil] at hdata
    refine ⟨Nat.zero_le _, nofun, ?_⟩
    intro hne
    exact absurd hdata.symm hne
  · exact fun _ _ => nofun

theorem urgent_returned
    (h : j.req.oob = true → j.Urgent p) {n : Except Errno ℕ}
    (hn : n = .ok p.sent ∨ (∃ e, n = .error e) ∧ (p.sent < p.buf.length ∨ p.sent = 0))
    (nonblock : Bool) :
  (j.returned p nonblock n).Urgent
  := by
  obtain rfl | ⟨⟨e, rfl⟩, hp⟩ := hn
  · rw [SendJob.returned]
    split
    · exact fun hoob => (h hoob).marks
    next hnot =>
      apply urgent_pass
      · intro hoob
        have hok := ok_returned (h hoob).toProgress (.inl rfl) nonblock
        rw [SendJob.returned, if_neg hnot] at hok
        exact hok
      · exact fun hoob => (h hoob).flagged
      · exact fun hoob _ => (h hoob).marks
      · intro hoob hrest
        apply (h hoob).unmarked
        rintro ⟨hset, -⟩
        rw [(h hoob).oob_eq, Bool.and_eq_true, List.isEmpty_iff] at hset
        exact hrest hset.1
  · rw [SendJob.returned]
    intro hoob
    have hmarks := (h hoob).marks_total hp
    split
    · exact hmarks
    next hzero =>
      rw [Nat.eq_zero_of_not_pos hzero] at hmarks
      exact hmarks

end SendCall

namespace StreamWorld

open SendCall

variable {β κ : Type} [DecidableEq β] {L : Lwip} {w : StreamWorld β κ}

omit [DecidableEq β] in
theorem CallStep.urgent
    {s : SbSocket β κ} {l : StreamLabel β κ} {i : β} {c c' : SendCall} (h : CallStep s l i c c')
    (hc : c.Urgent) :
  c'.Urgent
  := by
  cases h with
  | stay | sleeps => exact hc
  | begin => apply urgent_begin
  | resume j p hcall => obtain rfl | rfl := hcall <;> exact hc
  | failed j p e =>
    apply urgent_returned hc
    exact (p.sentOr_cases e).imp_right (And.imp_right .inr)
  | returns j p r waiters n hl hround =>
    apply urgent_returned hc
    obtain ⟨n', hn', hcases⟩ | ⟨hfail, -, hlt⟩ | ⟨hsleeps, -⟩ | ⟨chunk, hqueues, -⟩ :=
      s.sbTcpSend_spec p r
    · cases hround.symm.trans hn'
      exact hcases.imp_right (And.imp_right .inr)
    · cases hround.symm.trans hfail
      exact .inr ⟨⟨_, rfl⟩, .inl hlt⟩
    · cases hround.symm.trans hsleeps
    · cases hround.symm.trans hqueues
  | queues j p r chunk hround hcall =>
    have hlt : p.sent < p.buf.length := by
      by_contra hnot
      rw [SbSocket.sbTcpSend, if_neg hnot] at hround
      cases hround
    have hqueue (hoob : j.req.oob = true) :=
      (hc hoob).queue hlt (SbSocket.sbTcpSend_queues hround).1
    obtain rfl | rfl := hcall <;> exact hqueue

theorem urgent_of_reachable
    (hw : (system L).Reachable w) (i : β) :
  (w.call i).Urgent
  := by
  have hall : ∀ i, (w.call i).Urgent := by
    apply hw.invariant
    · rintro _ ⟨b, s, -, -, rfl⟩ i
      trivial
    · intro w l w' ih _ hnext i
      exact (callStep_of_next hnext i).urgent (ih i)
  exact hall i

/-! ### Messages -/

variable (β κ L) in
inductive Resends (msg : List UInt8) : List TcpWrite → List UInt8 → Prop where
  | start : Resends msg [] msg
  | call {ws : List TcpWrite} {left : List UInt8} (hsent : Resends msg ws left) (hleft : left ≠ [])
      {w : StreamWorld β κ} (hw : (system L).Reachable w) {i : β} {j : SendJob} {n : ℕ}
      (hcall : (w.call i).sent = some (j, n)) (hoob : j.req.oob = true) (hdata : j.req.data = left) :
      Resends msg (ws ++ j.writes) (left.drop n)

/-- Exactly one write of a complete message carries the urgent mark, and it ends with the last byte of
the message. -/
theorem one_urgent_mark
    {msg left : List UInt8} {ws : List TcpWrite} (h : Resends β κ L msg ws left) (hmsg : msg ≠ []) :
  (left = [] → MarkedOnce ws msg) ∧ (left ≠ [] → Unmarked ws)
  := by
  suffices left <:+ msg ∧ (left = [] → MarkedOnce ws msg) ∧ (left ≠ [] → Unmarked ws) from this.2
  induction h with
  | start => exact ⟨suffix_rfl, fun hnil => absurd hnil hmsg, fun _ => nofun⟩
  | @call ws left hsent hleft w hw i j n hcall hoob hdata ih =>
    obtain ⟨hsuffix, -, hbefore⟩ := ih
    obtain ⟨hle, hpart, hall⟩ := (urgent_of_reachable hw i).marks hcall hoob
    rw [hdata] at hle hpart hall
    refine ⟨(drop_suffix _ _).trans hsuffix, ?_, ?_⟩
    · intro hnil
      obtain ⟨vs, v, hws, hvs, hurg, hne, hend⟩ :=
        hall hleft (le_antisymm hle (drop_eq_nil_iff.mp hnil))
      refine ⟨ws ++ vs, v, ?_, ?_, hurg, hne, hend.trans hsuffix⟩
      · rw [hws, append_assoc]
      · exact forall_mem_append.mpr ⟨hbefore hleft, hvs⟩
    · intro hrest
      have hunmarked : Unmarked j.writes := by
        apply hpart
        exact Nat.lt_of_not_le fun h => hrest (drop_eq_nil_iff.mpr h)
      exact forall_mem_append.mpr ⟨hbefore hleft, hunmarked⟩

def shortUrgentRun : List (StreamLabel Bool Unit) :=
  [.begin true (.sendmsg [[1, 2], [], [3], []] true true), .enter true, .run true .ok false,
    .run true .ok false, .enter true, .run true .mem false]

theorem shortUrgentRun_enabled :
  ((system Lwip.reference).exec connection shortUrgentRun).isSome = true
  := by
  decide

def restRun : List (StreamLabel Bool Unit) :=
  shortUrgentRun ++ [.begin true (.send [3] true false), .enter true, .run true .ok false]

theorem restRun_enabled :
  ((system Lwip.reference).exec connection restRun).isSome = true
  := by
  decide

theorem one_urgent_mark_rest :
  Resends Bool Unit Lwip.reference [1, 2, 3] [⟨[1, 2], false, false⟩, ⟨[3], false, true⟩] [] ∧
    MarkedOnce [⟨[1, 2], false, false⟩, ⟨[3], false, true⟩] [1, 2, 3]
  := by
  have hinit := init_connection Lwip.reference
  have hshort : Resends Bool Unit Lwip.reference [1, 2, 3] [⟨[1, 2], false, false⟩] [3] :=
    .call .start (cons_ne_nil _ _)
      (reachable_last (h := shortUrgentRun_enabled) hinit) (i := true)
      (j := ⟨.sendmsg [[1, 2], [], [3], []] true true, [], 2, [⟨[1, 2], false, false⟩]⟩) (n := 2)
      rfl rfl rfl
  have hrest : Resends Bool Unit Lwip.reference [1, 2, 3]
      [⟨[1, 2], false, false⟩, ⟨[3], false, true⟩] [] :=
    .call hshort (cons_ne_nil _ _)
      (reachable_last (h := restRun_enabled) hinit) (i := true)
      (j := ⟨.send [3] true false, [], 0, [⟨[3], false, true⟩]⟩) (n := 1) rfl rfl rfl
  exact ⟨hrest, (one_urgent_mark hrest (cons_ne_nil _ _)).1 rfl⟩

end StreamWorld
