import LxcHttpServer.UnclaimedConnections

/-!
# What becomes of a connection that a call leaves

A call of `httpserver` that refuses the request, or does not find what it asks for, returns
without closing the connection or keeping it. The event was one-shot and the timer has forbidden
the entry, so nothing in the process ever comes back to that descriptor: it stays open, and the
client waits.
-/
namespace LxcHttpServer
open IteratorLists PartialRuns

namespace ServerProcess

variable {c : Sockets} {s s' : ServerProcess} {server : Server} {l : Label} {fd : ℤ}

/-- An open descriptor that neither the epoll instance nor the timer nor anybody in the process
will come back to. -/
structure Abandoned (s : ServerProcess) (fd : ℤ) : Prop extends Unclaimed s fd where
  isOpen : fd ∈ s.server.kernel.openFds
  unarmed : ¬ s.server.kernel.Armed fd
  entry : Dispatched s.server.timer fd

theorem Abandoned.of_same (h : s.Abandoned fd) (hunclaimed : s'.Unclaimed fd)
    (hsame : Server.Same s.server s'.server fd) : s'.Abandoned fd where
  toUnclaimed := hunclaimed
  isOpen := hsame.isOpen.mpr h.isOpen
  unarmed harmed := h.unarmed (hsame.epoll.symm.trans harmed)
  entry := by
    rcases h.entry with hnone | hforb
    · exact .inl fun hreg => hnone (by
        rw [Timer.Registered, ← AList.lookup_isSome] at hreg ⊢
        rwa [← hsame.entry])
    · exact .inr (hsame.entry.trans hforb)

theorem Abandoned.step (h : s.Abandoned fd) (hord : Orderly c s) (hconn : c.IsConnection fd)
    (hen : s.enabled c l) (hstep : s.step c l = .ok s') :
    s'.Abandoned fd ∧ Server.Same s.server s'.server fd := by
  have hquiet : ∀ events, l = .epollWait events → fd ∉ events := by
    rintro events rfl hmem
    exact h.unarmed (armed_of_reported hconn.2 (hen.2.2.2 fd hmem))
  have hspared := hord.consistent.spares_dispatched h.entry
  obtain ⟨hunclaimed, hsame⟩ := h.toUnclaimed.same hord hconn h.isOpen hquiet
    (fun _ _ => hspared) hen hstep
  exact ⟨h.of_same hunclaimed hsame, hsame⟩

/-- A connection whose call returns without closing or keeping it is open for good: in no run
from there is it reported, in anybody's hands or closed. -/
theorem left_open {as bs : List Label} {t : ServerProcess} (hrest : Resting c server)
    (hrun : (serverProcess c).Run (start server) as s) (hopen : fd ∈ s.server.kernel.openFds)
    (hown : fd ∉ s.own) (hrun' : (serverProcess c).Run s (.leave fd :: bs) t) :
    fd ∈ t.server.kernel.openFds ∧ ¬ t.server.kernel.Armed fd ∧ fd ∉ t.engaged ∧
      t.server.kernel.closes.count fd = s.server.kernel.closes.count fd := by
  have hord := (hrest.orderly.run hrun).1
  obtain ⟨s', hen, hstep, hgoes⟩ := hrun'.of_cons
  have hconn : c.IsConnection fd := hen.2
  have hengaged : fd ∈ s.engaged := by
    simp only [engaged, List.mem_append]
    exact .inl (.inl (.inr hen.1))
  have hdisp : Dispatched s.server.timer fd := by
    apply hord.dispatched
    simp only [dispatched, List.mem_append]
    exact .inl (.inl (.inr hen.1))
  have hord' := (hord.step (l := .leave fd) hen hstep).1
  cases hstep
  have hleft : Abandoned { s with serving := s.serving.erase fd } fd := by
    refine ⟨⟨hord.released hen.1 hconn, hown⟩, hopen, fun harmed => ?_, hdisp⟩
    exact (hord.onePlace fd hconn).armed harmed hengaged
  have hall : Orderly c t ∧ t.Abandoned fd ∧ Server.Same s.server t.server fd := by
    apply hgoes.invariant (P := fun u => Orderly c u ∧ u.Abandoned fd ∧
      Server.Same s.server u.server fd)
    · exact ⟨hord', hleft, .refl s.server fd⟩
    · intro u l u' hu hen hstep
      obtain ⟨habandoned, hsame⟩ := hu.2.1.step hu.1 hconn hen hstep
      exact ⟨(hu.1.step hen hstep).1, habandoned, hu.2.2.trans hsame⟩
  obtain ⟨-, habandoned, hsame⟩ := hall
  exact ⟨habandoned.isOpen, habandoned.unarmed, habandoned.nobody, hsame.closes⟩

/-- The connection 5 asks for a file that does not exist, and is still there 20 seconds later. -/
theorem left_open_not_found : ∃ server s t, (serverProcess ⟨3, 4⟩).Run (start server)
    [.epollWait [5], .main, .main, .main, .main, .main, .take] s ∧
    (serverProcess ⟨3, 4⟩).Run s [.leave 5, .elapse 20000000, .alarm] t ∧
    5 ∈ t.server.kernel.openFds ∧ 5 ∉ t.engaged := by
  have hex : ∃ server, serverOrder.Run ⟨.new 15 1000, .boot⟩ [.accept 5, .addfd 5] server ∧
      (∀ fd ∈ server.timer.hashMap.keys,
        (⟨3, 4⟩ : Sockets).IsConnection fd ∧ ¬ server.timer.Forbidden fd) ∧
      ((serverProcess ⟨3, 4⟩).exec (start server)
        [.epollWait [5], .main, .main, .main, .main, .main, .take]).any fun s =>
          5 ∈ s.server.kernel.openFds ∧ 5 ∉ s.own ∧
          ((serverProcess ⟨3, 4⟩).exec s [.leave 5, .elapse 20000000, .alarm]).isSome :=
    System.Run.exists_of_exec (by decide +kernel)
  obtain ⟨server, hserver, hkeys, hexec⟩ := hex
  obtain ⟨s, hrun, hopen, hown, hgoes⟩ := System.Run.exists_of_exec hexec
  obtain ⟨t, ht⟩ := Option.isSome_iff_exists.mp hgoes
  have hrun' := System.Run.of_exec ht
  have hrest : Resting ⟨3, 4⟩ server := .of_keys (Server.consistent_of_run hserver) hkeys
  obtain ⟨hstill, -, hnobody, -⟩ := left_open hrest hrun hopen hown hrun'
  exact ⟨server, s, t, hrun, hrun', hstill, hnobody⟩

end ServerProcess
end LxcHttpServer
