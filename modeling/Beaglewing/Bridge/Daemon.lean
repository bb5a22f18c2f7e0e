/-
# `Bridge.Daemon` — the bridge's main loop

`main` from the point where it listens: it takes one client at a time, runs
`handle_client` to its end, and releases everything.  So nothing is held
while no client is served (`released_of_listening`), whatever the clients
before have sent; and a client that is still served has been sent what its
turns have read (`tracks_session`).
-/
import Beaglewing.Base.Lts
import Beaglewing.Bridge.Session

namespace Beaglewing.Bridge

open Base

inductive Daemon where
  | listening (hid : Hid)
  | serving (s : Session)
  | exited (hid : Hid)

def Daemon.hid : Daemon → Hid
  | .listening hid => hid
  | .serving s => s.client.hid
  | .exited hid => hid

/-- What comes next: the shutdown flag, no client, a client, or a turn of the
client's loop.  A client whose stream cannot be set up is dropped at once. -/
inductive DaemonEvent where
  | shutdown
  | noClient
  | accept (ready : Bool) (room : Option Nat)
  | turn (t : Turn)

def daemon : Lts Daemon DaemonEvent where
  step
    | .listening hid, .shutdown => some (.exited hid.releaseAll)
    | .listening hid, .noClient => some (.listening hid)
    | .listening hid, .accept ready room =>
        some (if ready then .serving (.new hid room) else .listening hid.releaseAll)
    | .serving s, .turn t =>
        match s.turn t with
        | .go s => some (.serving s)
        | .stop s => some (.listening s.client.hid.releaseAll)
    | _, _ => none

/-- Nothing is held, unless a client is served. -/
def DaemonOk : Daemon → Prop
  | .listening hid => hid.Released
  | .serving _ => True
  | .exited hid => hid.Released

theorem daemonOk_step {d d' : Daemon} {e : DaemonEvent} (h : DaemonOk d)
    (hst : daemon.step d e = some d') : DaemonOk d' := by
  cases d with
  | listening hid =>
      cases e with
      | shutdown =>
          cases hst
          exact hid.released_releaseAll
      | noClient =>
          cases hst
          exact h
      | accept ready room =>
          cases hst
          cases ready with
          | true => trivial
          | false => exact hid.released_releaseAll
      | turn t => cases hst
  | serving s =>
      cases e with
      | turn t =>
          simp only [daemon] at hst
          cases ht : s.turn t with
          | go s' =>
              rw [ht] at hst
              cases hst
              trivial
          | stop s' =>
              rw [ht] at hst
              cases hst
              exact s'.client.hid.released_releaseAll
      | shutdown => cases hst
      | noClient => cases hst
      | accept ready room => cases hst
  | exited hid => cases hst

theorem daemonOk_run {takes : Nat → Bool} {events : List DaemonEvent} {d : Daemon}
    (h : daemon.exec (.listening (.open takes)) events = some d) : DaemonOk d := by
  have hstart : DaemonOk (.listening (.open takes)) := Hid.released_open takes
  exact daemon.exec_invariant hstart (fun _ _ _ => daemonOk_step) h

theorem released_of_listening {takes : Nat → Bool} {events : List DaemonEvent} {hid : Hid}
    (h : daemon.exec (.listening (.open takes)) events = some (.listening hid)) : hid.Released :=
  daemonOk_run h

/-- A client that is still served has let all its turns go on. -/
theorem acts_of_serving {s s' : Session} {turns : List Turn}
    (hrun : daemon.exec (.serving s) (turns.map .turn) = some (.serving s')) :
    acts Session.turn s turns = .go s' := by
  induction turns generalizing s with
  | nil =>
      cases hrun
      rfl
  | cons t turns ih =>
      rw [List.map_cons, Lts.exec_cons] at hrun
      obtain ⟨d, hst, hrun⟩ := Option.bind_eq_some_iff.mp hrun
      simp only [daemon] at hst
      cases ht : s.turn t with
      | go s₁ =>
          rw [ht] at hst
          cases hst
          rw [acts, ht]
          exact ih hrun
      | stop s₁ =>
          rw [ht] at hst
          cases hst
          -- The session is over, and the daemon takes no more of its turns.
          cases turns with
          | nil => cases hrun
          | cons t' turns => cases hrun

theorem acts_of_session {hid : Hid} {ready : Bool} {room : Option Nat} {turns : List Turn}
    {s : Session}
    (hrun : daemon.exec (.listening hid) (.accept ready room :: turns.map .turn) =
      some (.serving s)) :
    acts Session.turn (.new hid room) turns = .go s := by
  rw [Lts.exec_cons] at hrun
  obtain ⟨d, hst, hrun⟩ := Option.bind_eq_some_iff.mp hrun
  cases hst
  cases ready with
  | true => exact acts_of_serving hrun
  | false =>
      cases turns with
      | nil => cases hrun
      | cons t turns => cases hrun

/-- A session that has not ended has been sent what its turns have read. -/
theorem tracks_acts {s₀ : Client} {stream : List UInt8} {s s' : Session} {turns : List Turn}
    (h : Tracks s₀ stream s) (hrun : acts Session.turn s turns = .go s') :
    Tracks s₀ (stream ++ turns.flatMap Turn.received) s' := by
  induction turns generalizing stream s with
  | nil =>
      cases hrun
      rw [List.flatMap_nil, List.append_nil]
      exact h
  | cons t turns ih =>
      rw [acts] at hrun
      cases ht : s.turn t with
      | go s₁ =>
          rw [ht] at hrun
          rw [List.flatMap_cons, ← List.append_assoc]
          exact ih (tracks_turn h ht) hrun
      | stop s₁ =>
          rw [ht] at hrun
          cases hrun

theorem tracks_session {hid : Hid} {ready : Bool} {room : Option Nat} {turns : List Turn}
    {s : Session}
    (hrun : daemon.exec (.listening hid) (.accept ready room :: turns.map .turn) =
      some (.serving s)) :
    Tracks (Session.new hid room).client (turns.flatMap Turn.received) s :=
  tracks_acts (tracks_new hid room) (acts_of_session hrun)

end Beaglewing.Bridge
