import LwipAmiga.Descriptor.World

/-!
# What a step of the library does

`World.Step w l w'` lists what a step with the label `l` can do, and `step_of_next` says that there is
nothing else.
-/

open Function Option List

/-! ### Tables -/

structure TableAdd {κ : Type} [DecidableEq κ] (k : κ) (tab tab' : List (Option κ)) : Prop where
  count : ∀ j, tab'.count (some j) = tab.count (some j) + if k = j then 1 else 0
  length : tab'.length = tab.length

section Tables

variable {κ : Type} {k : κ} {tab : List (Option κ)} {fd : ℤ}

theorem getElem?_of_sbFdGet_none
    (h : sbFdGet tab fd = none)
    (hrange : ¬ (fd < 0 ∨ tab.length ≤ fd.toNat)) :
  tab[fd.toNat]? = some none
  := by
  rw [not_or, not_le] at hrange
  have hget := getElem?_eq_getElem hrange.2
  rw [sbFdGet, if_neg hrange.1, hget, join_some] at h
  rw [hget, h]

variable [DecidableEq κ]

theorem TableAdd.of_sbFdAlloc
    {tab' : List (Option κ)} {i : ℕ} (h : sbFdAlloc k tab = some (i, tab')) :
  TableAdd k tab tab'
  := by
  constructor
  · apply count_sbFdAlloc h
  · apply length_sbFdAlloc h

theorem TableAdd.of_set
    {i : ℕ} (h : tab[i]? = some none) (k : κ) :
  TableAdd k tab (tab.set i (some k))
  := by
  constructor
  · intro j
    simpa using count_set_add h (some k) (some j)
  · apply length_set

theorem TableAdd.of_clear
    {i : ℕ} (h : tab[i]? = some (some k)) :
  TableAdd k (tab.set i none) tab
  := by
  constructor
  · intro j
    simpa using (count_set_add h none (some j)).symm
  · symm
    apply length_set

theorem count_pos_of_sbFdGet (h : sbFdGet tab fd = some k) :
  0 < tab.count (some k)
  := by
  rw [count_pos_iff]
  apply mem_of_getElem? (getElem?_of_sbFdGet h)

end Tables

/-! ### Steps -/

structure SbSocket.SameRefs {β κ : Type} (s s' : SbSocket β κ) : Prop where
  owners : s'.owners = s.owners
  refs : s'.refs = s.refs
  acceptq : s'.acceptq = s.acceptq
  naccept : s'.naccept = s.naccept

theorem SbSocket.sameRefs_bsdListen
    {β κ : Type} (s : SbSocket β κ) (backlog : ℤ) (listens : Bool) :
  s.SameRefs (s.bsdListen backlog listens).1
  := by
  unfold bsdListen
  split
  · exact ⟨rfl, rfl, rfl, rfl⟩
  · split
    · exact ⟨rfl, rfl, rfl, rfl⟩
    · split
      · exact ⟨rfl, rfl, rfl, rfl⟩
      · split <;> exact ⟨rfl, rfl, rfl, rfl⟩

namespace World

variable {β κ : Type}

def unqueued (s : SbSocket β κ) (rest : List κ) : SbSocket β κ :=
  { s with acceptq := rest, naccept := s.naccept - 1 }

theorem unqueued_of_acceptTest
    {s s' : SbSocket β κ} {q : κ} (h : s.acceptTest = (.take q, s')) :
  ∃ rest, s.acceptq = q :: rest ∧ s' = unqueued s rest
  := by
  unfold SbSocket.acceptTest at h
  split at h
  · split at h
    · nomatch h
    · split at h <;> nomatch h
  · split at h
    · nomatch h
    · rename_i q' rest hq
      obtain ⟨rfl, rfl⟩ : q' = q ∧ unqueued s rest = s' := by simpa [unqueued] using h
      exact ⟨rest, hq, rfl⟩

variable [DecidableEq β] [DecidableEq κ]

def held (w : World β κ) (b : β) (k : κ) : ℕ :=
  (w.fds b).count (some k)

def drop (w : World β κ) (b : β) (tab : List (Option κ)) (k : κ) : World β κ :=
  (w.free b k).setFds b tab

def share (w : World β κ) (b : β) (tab : List (Option κ)) (k : κ) (s : SbSocket β κ) :
    World β κ :=
  (w.setFds b tab).addRef b k s

inductive Step (w : World β κ) : Label β κ → World β κ → Prop where
  | idle (l : Label β κ) : Step w l w
  | drawn {b : β} {fd id : ℤ} {copy mem : Bool} (next : ℤ) :
      Step w (.release b fd id copy mem) { w with nextSockId := next }
  | opened {b : β} (hopener : w.opener b = .closed) :
      Step w (.libOpen b)
        { w.setFds b (List.replicate SB_FD_COUNT none) with
          opener := Function.update w.opener b .opened }
  | made {b : β} {l : Label β κ} {k : κ} {s : SbSocket β κ} {tab : List (Option κ)}
      (hopener : w.opener b = .opened) (hk : w.socks k = none)
      (howners : s.owners = .single b) (hrefs : s.refs = 1) (hnil : s.acceptq = [])
      (hzero : s.naccept = 0) (htab : TableAdd k (w.fds b) tab) :
      Step w l ((w.setSock k s).setFds b tab)
  | changed {l : Label β κ} {k : κ} {s s' : SbSocket β κ} (hk : w.socks k = some s)
      (hsame : s.SameRefs s') (hlisten : s'.listening = s.listening ∨ ∃ b, 0 < w.held b k) :
      Step w l (w.setSock k s')
  | queued {l : κ} {lst new s' : SbSocket β κ} {pcb : TcpPcb} {k : κ} {owner : β}
      (hl : w.socks l = some lst) (hlisten : lst.listening = true)
      (hfirst : lst.owners.first = some owner) (hk : w.socks k = none)
      (hnew : new = SbSocket.accepted owner pcb) (hs' : s' = (lst.acceptLink k).1) :
      Step w (.incoming l pcb (some k)) ((w.setSock k new).setSock l s')
  | taken {b : β} {fd : ℤ} {l q : κ} {s : SbSocket β κ} {rest : List κ}
      {tab : List (Option κ)} (hopener : w.opener b = .opened)
      (hfd : sbFdGet (w.fds b) fd = some l) (hl : w.socks l = some s)
      (hq : s.acceptq = q :: rest) (htab : TableAdd q (w.fds b) tab) :
      Step w (.accept b fd) ((w.setSock l (unqueued s rest)).setFds b tab)
  | refused {b : β} {fd : ℤ} {l q : κ} {s : SbSocket β κ} {rest : List κ}
      (hopener : w.opener b = .opened) (hfd : sbFdGet (w.fds b) fd = some l)
      (hl : w.socks l = some s) (hq : s.acceptq = q :: rest) :
      Step w (.accept b fd) ((w.setSock l (unqueued s rest)).free b q)
  | shared {b : β} {oldSock newSock : ℤ} {k : κ} {s : SbSocket β κ} {tab : List (Option κ)}
      (hopener : w.opener b = .opened) (hfd : sbFdGet (w.fds b) oldSock = some k)
      (hk : w.socks k = some s) (htab : TableAdd k (w.fds b) tab) :
      Step w (.dup2 b oldSock newSock) (w.share b tab k s)
  | replaced {b : β} {oldSock newSock : ℤ} {j k : κ} {s : SbSocket β κ}
      {tab tab' : List (Option κ)} (hopener : w.opener b = .opened)
      (hfd : sbFdGet (w.fds b) oldSock = some k) (hnew : sbFdGet (w.fds b) newSock = some j)
      (hjk : j ≠ k) (htab : TableAdd j tab (w.fds b))
      (hk : (w.drop b tab j).socks k = some s) (htab' : TableAdd k tab tab') :
      Step w (.dup2 b oldSock newSock) ((w.drop b tab j).share b tab' k s)
  | closed {b : β} {fd : ℤ} {k : κ} {tab : List (Option κ)} (hopener : w.opener b = .opened)
      (hfd : sbFdGet (w.fds b) fd = some k) (htab : TableAdd k tab (w.fds b)) :
      Step w (.close b fd) (w.drop b tab k)
  | copied {b : β} {fd id id' next : ℤ} {mem : Bool} {k : κ} {s : SbSocket β κ}
      (hopener : w.opener b = .opened) (hfd : sbFdGet (w.fds b) fd = some k)
      (hk : w.socks k = some s) :
      Step w (.release b fd id true mem)
        ({ w with parked := w.parked ++ [SbReleased.mk id' k], nextSockId := next }.setSock k
          { s with refs := s.refs + 1 })
  | parked {b : β} {fd id id' next : ℤ} {mem : Bool} {k : κ} {s : SbSocket β κ}
      {tab : List (Option κ)} (hopener : w.opener b = .opened)
      (hfd : sbFdGet (w.fds b) fd = some k) (hk : w.socks k = some s)
      (htab : TableAdd k tab (w.fds b)) :
      Step w (.release b fd id false mem)
        (({ w with parked := w.parked ++ [SbReleased.mk id' k], nextSockId := next }.setFds b
          tab).setSock k { s with owners := s.owners.decref b })
  | obtained {b : β} {id type : ℤ} {r : SbReleased κ} {s : SbSocket β κ}
      {owners : OwnerTable β} {tab : List (Option κ)} (hopener : w.opener b = .opened)
      (hfind : w.sbReleasedFind id = some r) (hk : w.socks r.s = some s)
      (htab : TableAdd r.s (w.fds b) tab) (howners : s.owners.incref b = some owners) :
      Step w (.obtain b id type)
        (({ w with parked := w.parked.eraseP (·.id == id) }.setFds b tab).setSock r.s
          { s with owners := owners })
  | grown {b : β} (hopener : w.opener b = .opened) (want : ℕ) :
      Step w (.grow b want) (w.growTable b want)
  | closing {b : β} (hopener : w.opener b = .opened) :
      Step w (.libClose b) { w with opener := Function.update w.opener b (.closing 0) }
  | skipped {b : β} {i : ℕ} (hopener : w.opener b = .closing i)
      (hi : (w.fds b)[i]? = some none) :
      Step w (.cleanup b) { w with opener := Function.update w.opener b (.closing (i + 1)) }
  | cleared {b : β} {i : ℕ} {k : κ} (hopener : w.opener b = .closing i)
      (hi : (w.fds b)[i]? = some (some k)) :
      Step w (.cleanup b)
        ({ w with opener := Function.update w.opener b (.closing (i + 1)) }.drop b
          ((w.fds b).set i none) k)
  | ended {b : β} {i : ℕ} (hopener : w.opener b = .closing i) (hi : (w.fds b).length ≤ i) :
      Step w (.cleanup b)
        { w.setFds b [] with opener := Function.update w.opener b .closed }

variable {w w' : World β κ}

/-! ### Descriptors that come and go -/

section Held

variable {b c : β} {k j : κ} {tab : List (Option κ)}

theorem held_setFds_self :
  (w.setFds b tab).held b k = tab.count (some k)
  := by
  simp only [held, setFds, update_self]

theorem held_setFds_of_ne (h : c ≠ b) :
  (w.setFds b tab).held c k = w.held c k
  := by
  simp only [held, setFds, update_of_ne h]

theorem held_add_self (h : TableAdd k (w.fds b) tab) :
  (w.setFds b tab).held b k = w.held b k + 1
  := by
  rw [held_setFds_self, h.count, if_pos rfl, held]

theorem held_add_of_ne
    (h : TableAdd k (w.fds b) tab) (hj : j ≠ k) (c : β) :
  (w.setFds b tab).held c j = w.held c j
  := by
  by_cases hc : c = b
  · subst hc
    rw [held_setFds_self, h.count, if_neg hj.symm, held, Nat.add_zero]
  · apply held_setFds_of_ne hc

theorem held_drop_self (h : TableAdd k tab (w.fds b)) :
  (w.setFds b tab).held b k + 1 = w.held b k
  := by
  rw [held_setFds_self, held, h.count, if_pos rfl]

theorem held_drop_of_ne
    (h : TableAdd k tab (w.fds b)) (hj : j ≠ k) (c : β) :
  (w.setFds b tab).held c j = w.held c j
  := by
  by_cases hc : c = b
  · subst hc
    rw [held_setFds_self, held, h.count, if_neg hj.symm, Nat.add_zero]
  · apply held_setFds_of_ne hc

theorem held_setFds_of_count
    (h : ∀ j, tab.count (some j) = w.held b j) :
  (w.setFds b tab).held = w.held
  := by
  funext c j
  by_cases hc : c = b
  · subst hc
    rw [held_setFds_self, h]
  · apply held_setFds_of_ne hc

end Held

/-! ### The steps of the calls -/

theorem free_setSock
    {k : κ} {s : SbSocket β κ} (b : β) (hk : w.socks k = none) (hrefs : s.refs = 1)
    (hnil : s.acceptq = []) :
  (w.setSock k s).free b k = w
  := by
  have hsocks : sbSockFree FREE_DEPTH (update w.socks k (some s)) (some b) k = w.socks := by
    simp only [FREE_DEPTH, sbSockFree, update_self, hrefs, hnil, sub_self, ne_eq,
      not_true_eq_false, if_false, foldl_nil, update_idem]
    rw [← hk, update_eq_self]
  simp only [free, setSock, hsocks]

theorem step_bsdSocket
    {b : β} {l : Label β κ} {domain type protocol : ℤ} {mem : Option κ} {made : Bool}
    (hopener : w.opener b = .opened) (hmem : w.IsFree mem) :
  w.Step l (w.bsdSocket b domain type protocol mem made).1
  := by
  unfold bsdSocket
  split
  · apply Step.idle
  · rename_i st _
    cases mem with
    | none => apply Step.idle
    | some k =>
      have hk : w.socks k = none := hmem k rfl
      cases made with
      | false =>
        simp only [Bool.false_eq_true, if_false]
        rw [free_setSock b hk rfl rfl]
        apply Step.idle
      | true =>
        simp only [if_true]
        split
        · rw [free_setSock b hk rfl rfl]
          apply Step.idle
        · rename_i htab
          apply Step.made hopener hk rfl rfl rfl rfl (.of_sbFdAlloc htab)

theorem step_sbTcpAcceptCb
    {l : κ} {lst : SbSocket β κ} {pcb : TcpPcb} {mem : Option κ} (hl : w.socks l = some lst)
    (hlisten : lst.listening = true) (hmem : w.IsFree mem) :
  w.Step (.incoming l pcb mem) (w.sbTcpAcceptCb l lst pcb mem)
  := by
  unfold sbTcpAcceptCb
  cases howner : lst.acceptOwner with
  | none => apply Step.idle
  | some owner =>
    cases mem with
    | none => apply Step.idle
    | some k =>
      have hfirst : lst.owners.first = some owner := by
        unfold SbSocket.acceptOwner at howner
        split at howner
        · exact howner
        · contradiction
      apply Step.queued hl hlisten hfirst (hmem k rfl) rfl rfl

theorem step_bsdAccept
    {b : β} {fd : ℤ} {r : Except Errno ℤ} (hopener : w.opener b = .opened)
    (h : w.bsdAccept b fd = some (w', r)) :
  w.Step (.accept b fd) w'
  := by
  unfold bsdAccept at h
  split at h
  · cases h
    apply Step.idle
  · rename_i l hfd
    split at h
    · contradiction
    · rename_i s hl
      split at h
      · cases h
        apply Step.idle
      · split at h
        · cases h
          apply Step.idle
        · contradiction
        · rename_i q s' htest
          obtain ⟨rest, hq, rfl⟩ := unqueued_of_acceptTest htest
          split at h
          · cases h
            apply Step.refused hopener hfd hl hq
          · rename_i htab
            cases h
            apply Step.taken hopener hfd hl hq (.of_sbFdAlloc htab)

theorem step_bsdDup2Socket
    {b : β} {oldSock newSock : ℤ} {r : Except Errno ℤ} (hopener : w.opener b = .opened)
    (h : w.bsdDup2Socket b oldSock newSock = some (w', r)) :
  w.Step (.dup2 b oldSock newSock) w'
  := by
  unfold bsdDup2Socket at h
  split at h
  · cases h
    apply Step.idle
  · rename_i k hfd
    split at h
    · split at h
      · cases h
        apply Step.idle
      · rename_i htab
        obtain ⟨s, hk, h⟩ := Option.map_eq_some_iff.mp h
        cases h
        apply Step.shared hopener hfd hk (.of_sbFdAlloc htab)
    · split at h
      · cases h
        apply Step.idle
      · rename_i hrange
        split at h
        · rename_i hnone
          obtain ⟨s, hk, h⟩ := Option.map_eq_some_iff.mp h
          cases h
          apply Step.shared hopener hfd hk (.of_set (getElem?_of_sbFdGet_none hnone hrange) k)
        · rename_i j hnew
          split at h
          · cases h
            apply Step.idle
          · rename_i hjk
            have hj := getElem?_of_sbFdGet hnew
            have hempty : ((w.fds b).set newSock.toNat none)[newSock.toNat]? = some none := by
              have hlen := (List.getElem?_eq_some_iff.mp hj).1
              simp [hlen]
            obtain ⟨s, hk, h⟩ := Option.map_eq_some_iff.mp h
            cases h
            have hset := TableAdd.of_set hempty k
            rw [List.set_set] at hset
            have := Step.replaced hopener hfd hnew hjk (.of_clear hj) hk hset
            simpa only [drop, share, setFds, Function.update_idem] using this

theorem step_park
    {b : β} {fd id id' next : ℤ} {k : κ} {s : SbSocket β κ} {copy mem : Bool}
    (hopener : w.opener b = .opened) (hfd : sbFdGet (w.fds b) fd = some k)
    (hk : w.socks k = some s) :
  w.Step (.release b fd id copy mem) ({ w with nextSockId := next }.park b fd k s id' copy)
  := by
  cases copy with
  | true => apply Step.copied hopener hfd hk
  | false => apply Step.parked hopener hfd hk (.of_clear (getElem?_of_sbFdGet hfd))

theorem step_sbReleaseCommon
    {b : β} {fd id : ℤ} {copy mem : Bool} {r : Except Errno ℤ} (hopener : w.opener b = .opened)
    (h : w.sbReleaseCommon b fd id copy mem = some (w', r)) :
  w.Step (.release b fd id copy mem) w'
  := by
  unfold sbReleaseCommon at h
  split at h
  · cases h
    apply Step.idle
  · rename_i k hfd
    obtain ⟨s, hk, h⟩ := bind_eq_some_iff.mp h
    split at h
    · obtain ⟨⟨id', next⟩, -, h⟩ := map_eq_some_iff.mp h
      dsimp only at h
      split at h
      · cases h
        apply step_park hopener hfd hk
      · cases h
        apply Step.drawn
    · split at h
      · cases h
        apply Step.idle
      · split at h
        · cases h
          apply step_park hopener hfd hk
        · cases h
          apply Step.idle

theorem step_bsdObtainSocket
    {b : β} {id type : ℤ} {r : Except Errno ℤ} (hopener : w.opener b = .opened)
    (h : w.bsdObtainSocket b id type = some (w', r)) :
  w.Step (.obtain b id type) w'
  := by
  unfold bsdObtainSocket at h
  split at h
  · cases h
    apply Step.idle
  · rename_i p hfind
    obtain ⟨s, hk, h⟩ := map_eq_some_iff.mp h
    split at h
    · cases h
      apply Step.idle
    · split at h
      · cases h
        apply Step.idle
      · rename_i htab
        split at h
        · cases h
          apply Step.idle
        · rename_i howners
          cases h
          apply Step.obtained hopener hfind hk (.of_sbFdAlloc htab) howners

theorem step_cleanup
    {b : β} {i : ℕ} (hopener : w.opener b = .closing i) :
  w.Step (.cleanup b) (w.cleanup b i)
  := by
  unfold cleanup
  split
  · rename_i hi
    have hget := getElem?_eq_getElem hi
    cases hentry : (w.fds b)[i] with
    | none =>
      rw [hentry] at hget
      simp only [hget, join_some]
      apply Step.skipped hopener hget
    | some k =>
      rw [hentry] at hget
      simp only [hget, join_some]
      apply Step.cleared hopener hget
  · rename_i hi
    apply Step.ended hopener (not_lt.mp hi)

theorem step_of_next
    {l : Label β κ} (h : w.next l = some w') :
  w.Step l w'
  := by
  cases l with
  | libOpen b =>
    obtain ⟨hopener, ⟨⟩⟩ := ite_none_right_eq_some.mp h
    apply Step.opened hopener
  | socket b domain type protocol mem made =>
    obtain ⟨⟨hopener, hmem⟩, ⟨⟩⟩ := ite_none_right_eq_some.mp h
    apply step_bsdSocket hopener hmem
  | listen b fd backlog listens =>
    obtain ⟨hopener, h⟩ := ite_none_right_eq_some.mp h
    obtain ⟨k, hfd, h⟩ := bind_eq_some_iff.mp h
    obtain ⟨s, hk, rfl⟩ := map_eq_some_iff.mp h
    apply Step.changed hk (s.sameRefs_bsdListen backlog listens)
    right
    exact ⟨b, count_pos_of_sbFdGet hfd⟩
  | incoming l newpcb mem =>
    obtain ⟨lst, hl, h⟩ := bind_eq_some_iff.mp h
    obtain ⟨⟨hlisten, hmem⟩, ⟨⟩⟩ := ite_none_right_eq_some.mp h
    rw [Bool.and_eq_true] at hlisten
    apply step_sbTcpAcceptCb hl hlisten.1 hmem
  | accept b fd =>
    obtain ⟨hopener, h⟩ := ite_none_right_eq_some.mp h
    obtain ⟨⟨w', r⟩, hcall, rfl⟩ := map_eq_some_iff.mp h
    apply step_bsdAccept hopener hcall
  | dup2 b oldSock newSock =>
    obtain ⟨hopener, h⟩ := ite_none_right_eq_some.mp h
    obtain ⟨⟨w', r⟩, hcall, rfl⟩ := map_eq_some_iff.mp h
    apply step_bsdDup2Socket hopener hcall
  | close b fd =>
    obtain ⟨hopener, ⟨⟩⟩ := ite_none_right_eq_some.mp h
    unfold bsdCloseSocket
    split
    · apply Step.idle
    · rename_i k hfd
      apply Step.closed hopener hfd (.of_clear (getElem?_of_sbFdGet hfd))
  | release b fd id copy mem =>
    obtain ⟨hopener, h⟩ := ite_none_right_eq_some.mp h
    obtain ⟨⟨w', r⟩, hcall, rfl⟩ := map_eq_some_iff.mp h
    apply step_sbReleaseCommon hopener hcall
  | obtain b id type =>
    obtain ⟨hopener, h⟩ := ite_none_right_eq_some.mp h
    obtain ⟨⟨w', r⟩, hcall, rfl⟩ := map_eq_some_iff.mp h
    apply step_bsdObtainSocket hopener hcall
  | grow b want =>
    obtain ⟨hopener, ⟨⟩⟩ := ite_none_right_eq_some.mp h
    apply Step.grown hopener
  | libClose b =>
    obtain ⟨hopener, ⟨⟩⟩ := ite_none_right_eq_some.mp h
    apply Step.closing hopener
  | cleanup b =>
    simp only [next] at h
    split at h
    · rename_i hopener
      cases h
      apply step_cleanup hopener
    · contradiction
  | other k f =>
    obtain ⟨s, hk, rfl⟩ := map_eq_some_iff.mp h
    apply Step.changed hk
    · exact ⟨rfl, rfl, rfl, rfl⟩
    · exact Or.inl rfl

end World

/-! ### Tables over a run -/

section TablesOk

variable {β κ : Type} {opener : β → OpenerState} {fds : β → List (Option κ)}

structure TablesOk (opener : β → OpenerState) (fds : β → List (Option κ)) : Prop where
  absent : ∀ b, opener b = .closed → fds b = []
  behind : ∀ b i, opener b = .closing i → ∀ j < i, (fds b)[j]?.join = none
  bounded : ∀ b, (fds b).length ≤ SB_FD_MAX

variable {b : β} {st : OpenerState} {tab : List (Option κ)}

theorem TablesOk.length_add
    [DecidableEq κ] {k : κ} (h : TablesOk opener fds) (htab : TableAdd k (fds b) tab) :
  tab.length ≤ SB_FD_MAX
  := by
  rw [htab.length]
  apply h.bounded

theorem TablesOk.length_drop
    [DecidableEq κ] {k : κ} (h : TablesOk opener fds) (htab : TableAdd k tab (fds b)) :
  tab.length ≤ SB_FD_MAX
  := by
  rw [← htab.length]
  apply h.bounded

theorem TablesOk.count_eq_zero
    [DecidableEq κ] {i : ℕ} (h : TablesOk opener fds) (hb : opener b = .closing i)
    (hi : (fds b).length ≤ i) (k : κ) :
  (fds b).count (some k) = 0
  := by
  rw [List.count_eq_zero]
  intro hmem
  obtain ⟨j, hj⟩ := List.mem_iff_getElem?.mp hmem
  have hlt := (List.getElem?_eq_some_iff.mp hj).1
  have hnone := h.behind b i hb j (by omega)
  rw [hj] at hnone
  contradiction

variable [DecidableEq β]

theorem TablesOk.moved
    (h : TablesOk opener fds) (habsent : st = .closed → tab = [])
    (hbehind : ∀ i, st = .closing i → ∀ j < i, tab[j]?.join = none)
    (hlen : tab.length ≤ SB_FD_MAX) :
  TablesOk (update opener b st) (update fds b tab)
  := by
  constructor
  · intro c hc
    by_cases hcb : c = b
    · subst hcb
      rw [update_self] at hc ⊢
      apply habsent hc
    · rw [update_of_ne hcb] at hc ⊢
      apply h.absent c hc
  · intro c i hc
    by_cases hcb : c = b
    · subst hcb
      rw [update_self] at hc ⊢
      apply hbehind i hc
    · rw [update_of_ne hcb] at hc ⊢
      apply h.behind c i hc
  · intro c
    by_cases hcb : c = b
    · subst hcb
      rw [update_self]
      apply hlen
    · rw [update_of_ne hcb]
      apply h.bounded

theorem TablesOk.own
    (h : TablesOk opener fds) (hb : opener b = .opened) (hlen : tab.length ≤ SB_FD_MAX) :
  TablesOk opener (update fds b tab)
  := by
  rw [← update_eq_self b opener, hb]
  apply h.moved _ _ hlen
  · nofun
  · nofun

theorem TablesOk.advance
    {i : ℕ} (h : TablesOk opener fds) (hbehind : ∀ j < i, (fds b)[j]?.join = none) :
  TablesOk (update opener b (.closing i)) fds
  := by
  have hmoved : TablesOk (update opener b (.closing i))
      (update fds b (fds b)) := by
    apply h.moved _ _ (h.bounded b)
    · nofun
    · rintro i' ⟨⟩
      apply hbehind
  rwa [update_eq_self] at hmoved

end TablesOk

namespace World

variable {β κ : Type} [DecidableEq β] [DecidableEq κ] {w w' : World β κ} {l : Label β κ}

theorem tablesOk_step
    (h : TablesOk w.opener w.fds) (hstep : w.Step l w') :
  TablesOk w'.opener w'.fds
  := by
  cases hstep with
  | idle | drawn | changed | queued | refused | copied => apply h
  | opened =>
    apply h.moved
    · nofun
    · nofun
    · rw [length_replicate]
      decide
  | made hopener _ _ _ _ _ htab | taken hopener _ _ _ htab | shared hopener _ _ htab
  | obtained hopener _ _ htab => apply h.own hopener (h.length_add htab)
  | replaced hopener _ _ _ htab _ htab' =>
    apply TablesOk.own (h.own hopener (h.length_drop htab)) hopener
    rw [htab'.length]
    apply h.length_drop htab
  | closed hopener _ htab | parked hopener _ _ htab => apply h.own hopener (h.length_drop htab)
  | @grown b hopener =>
    apply h.own hopener
    have := h.bounded b
    rw [length_append, length_replicate]
    omega
  | closing =>
    apply h.advance
    intro j hj
    contradiction
  | @skipped b i hopener hi =>
    apply h.advance
    intro j hj
    obtain hj | rfl := Nat.lt_succ_iff_lt_or_eq.mp hj
    · apply h.behind b i hopener j hj
    · rw [hi]
      rfl
  | @cleared b i k hopener hi =>
    apply h.moved
    · nofun
    · rintro i' ⟨⟩ j hj
      rw [getElem?_set]
      split
      · split <;> rfl
      · apply h.behind b i hopener
        omega
    · rw [length_set]
      apply h.bounded
  | ended =>
    apply h.moved
    · intro _
      rfl
    · nofun
    · apply Nat.zero_le

theorem tablesOk_of_reach
    {good : World β κ → Label β κ → Prop} (hw : (system β κ).Reach good w) :
  TablesOk w.opener w.fds
  := by
  apply hw.invariant (I := fun w => TablesOk w.opener w.fds)
  · rintro w rfl
    constructor
    · intro _ _
      rfl
    · nofun
    · intro _
      apply Nat.zero_le
  · intro w l w' h _ hstep
    apply tablesOk_step h (step_of_next hstep)

variable {b : β}

theorem held_opened
    (h : TablesOk w.opener w.fds) (hopener : w.opener b = .closed) :
  (w.setFds b (replicate SB_FD_COUNT none)).held = w.held
  := by
  apply held_setFds_of_count
  intro j
  rw [held, h.absent b hopener]
  simp [count_replicate]

theorem held_growTable (b : β) (want : ℕ) :
  (w.growTable b want).held = w.held
  := by
  apply held_setFds_of_count
  intro j
  simp [held, count_append, count_replicate]

theorem held_ended
    {i : ℕ} (h : TablesOk w.opener w.fds) (hopener : w.opener b = .closing i)
    (hi : (w.fds b).length ≤ i) :
  (w.setFds b []).held = w.held
  := by
  apply held_setFds_of_count
  intro j
  rw [held, h.count_eq_zero hopener hi]
  rfl

end World
