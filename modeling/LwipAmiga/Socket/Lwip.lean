import LwipAmiga.Socket.Basic

/-!
# What the library relies on from lwIP

The TCP core itself is a component of its own, known to the library through its raw API.
-/

structure Lwip where
  connect : TcpPcb → Err → Bool
  listen : TcpPcb → Bool → Bool
  reports : Err → Bool
  deliver : TcpPcb → ℕ → Bool

structure Lwip.Documented (L : Lwip) : Prop where
  connect_closed : ∀ pcb, L.connect pcb .ok = true → pcb.state = .closed
  connect_already : ∀ pcb, L.connect pcb .already = false
  reports_already : L.reports .already = false
  listen_closed : ∀ pcb, L.listen pcb true = true → pcb.state = .closed
  deliver_window : ∀ pcb n, L.deliver pcb n = true → pcb.delivered + n ≤ TCP_WND + pcb.recved

namespace Lwip

def reference : Lwip where
  connect pcb r := r ≠ .already && (r ≠ .ok || pcb.state == .closed)
  listen pcb listens := !listens || pcb.state == .closed
  reports e := e ≠ .already
  deliver pcb n := decide (pcb.delivered + n ≤ TCP_WND + pcb.recved)

theorem reference_documented :
  reference.Documented
  := by
  constructor
  · intro pcb h
    simpa [reference] using h
  · intro pcb
    rfl
  · rfl
  · intro pcb h
    simpa [reference] using h
  · intro pcb n h
    simpa [reference] using h

end Lwip
