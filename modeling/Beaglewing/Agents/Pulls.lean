/-
# `Agents.Pulls` — an offer of the peer is pulled once

The Linux agent holds the last offer of files it was made, and asks for them
with a PULL when the user crosses over.  `requested` says that it has; what
becomes of the PULL, of the transfer that answers it, or of the session, is
not told to it.

    an OFFER comes in                 the offer is held, not requested
    Control "local" or "pull"         a PULL is sent, and the offer is requested
    a batch is set on the clipboard   there is no offer
    anything else                     the same offer, as it was

So `requested` says whether a PULL was sent since the OFFER came in (`asked`),
and a crossing sends the first PULL or none (`pulled_iff`).
-/
import Beaglewing.Agents.Isolation

namespace Beaglewing.Agents.Linux

open Base Clipframe Files

/-- The frame is an OFFER, and is read as one. -/
def offered (recv : Reassembler) : Ev → Bool
  | .frame f =>
      match (recv.feed f).2 with
      | .offer _ => true
      | _ => false
  | _ => false

/-- The handler of a control message has written a PULL for the offer that is
held. -/
def asks (a : Agent) (es : List Effect) : Ev → Bool
  | .control _ => a.remoteOffer.any fun ro => es.any fun
      | .write f _ => f = pullFrame ro.offer.id
      | _ => false
  | _ => false

/-- The agent and its threads, and whether a PULL was sent since the last OFFER
came in, which is not in the program. -/
structure Pulls where
  sys : System
  asked : Bool

/-- After the step from `s` to `s'`. -/
def askedAfter (s s' : System) (asked : Bool) : Act → Bool
  | .main _ =>
      match s.queue with
      | [] => asked
      | item :: _ =>
          if offered s.recv item.ev then false
          else asked || asks s.agent (s'.effects.drop s.effects.length) item.ev
  | _ => asked

def pulls (tar : TarCrate) (stageRoot : Path) : Lts Pulls Act where
  step s act :=
    ((threads tar stageRoot).step s.sys act).map fun sys =>
      ⟨sys, askedAfter s.sys sys s.asked act⟩

def Pulls.init (fs : Fs) (clip : Selection) : Pulls := ⟨.init .init fs clip, false⟩

section Handlers
variable {tar : TarCrate} {stageRoot : Path} {a : Agent} {recv : Reassembler} {fs : Fs}
  {ans : Answers} {o : Outcome}

theorem remoteOffer_onPull {fs' : Fs} {id : UInt32} {a' : Agent} {es : List Effect}
    {ended : Option End} (h : onPull tar a fs' id ans = some (a', es, ended)) :
    a'.remoteOffer = a.remoteOffer := by
  rcases onPull_cases h with ⟨rfl, -⟩ | ⟨lo, r, -, -, -, rfl, -⟩
  · rfl
  · split <;> rfl

theorem remoteOffer_controlPush {a' : Agent} {es : List Effect} {ended : Option End}
    (h : controlPush tar a fs ans = some (a', es, ended)) : a'.remoteOffer = a.remoteOffer := by
  rcases controlPush_cases h with ⟨-, rfl, -⟩ | ⟨lo, r, -, -, rfl, -⟩
  · rfl
  · split <;> rfl

/-- A push writes no frame itself. -/
theorem not_write_controlPush {a' : Agent} {es : List Effect} {ended : Option End}
    (h : controlPush tar a fs ans = some (a', es, ended)) (f : Frame) (ok : Bool) :
    .write f ok ∉ es := by
  intro hmem
  rcases controlPush_cases h with ⟨-, -, rfl, -⟩ | ⟨lo, r, -, hpush, -, -⟩
  · cases hmem
  · obtain ⟨archive, r, heq⟩ := pushLocalOffer_effects hpush _ hmem
    cases heq

/-- A frame that is no OFFER leaves the offer as it is, or drops it. -/
theorem remoteOffer_onFrame {f : Frame} (h : onFrame tar stageRoot a recv fs f ans = some o) :
    if offered recv (.frame f) then ∃ offer, o.agent.remoteOffer = some ⟨offer, false⟩
    else o.agent.remoteOffer = a.remoteOffer ∨ o.agent.remoteOffer = none := by
  cases hfeed : (recv.feed f).2 with
  | offer offer =>
      simp only [onFrame, handleFrame, hfeed] at h
      cases h
      simp only [offered, hfeed, if_true]
      exact ⟨offer, rfl⟩
  | pull id =>
      simp only [onFrame, handleFrame, hfeed] at h
      obtain ⟨⟨a', es, ended⟩, hpull, rfl⟩ := Option.map_eq_some_iff.mp h
      simp only [offered, hfeed, Bool.false_eq_true, if_false]
      exact .inl (remoteOffer_onPull hpull)
  | complete kind data =>
      simp only [offered, hfeed, Bool.false_eq_true, if_false]
      cases hr : receive tar stageRoot fs ans.ts kind data with
      | none =>
          simp only [onFrame, handleFrame, hfeed, hr] at h
          cases h
          exact .inl rfl
      | some r =>
          cases hset : ans.set with
          | true =>
              simp only [onFrame, handleFrame, hfeed, hr, hset, if_true] at h
              cases h
              dsimp only
              split
              · exact .inr rfl
              · exact .inl rfl
          | false =>
              simp only [onFrame, handleFrame, hfeed, hr, hset, Bool.false_eq_true, if_false] at h
              cases h
              exact .inl rfl
  | _ =>
      simp only [onFrame, handleFrame, hfeed] at h
      cases h
      simp [offered, hfeed]

theorem asks_false {es : List Effect} (h : ∀ f ok, .write f ok ∉ es) (ev : Ev) :
    asks a es ev = false := by
  cases ev with
  | control msg =>
      simp only [asks, Option.any_eq_false, Bool.not_eq_true, List.any_eq_false]
      intro ro _ e he
      cases e with
      | write f ok => exact absurd he (h f ok)
      | _ => rfl
  | _ => rfl

theorem asks_true {es : List Effect} {ro : RemoteOffer} {ok : Bool} {msg : String}
    (hro : a.remoteOffer = some ro) (h : .write (pullFrame ro.offer.id) ok ∈ es) :
    asks a es (.control msg) = true := by
  simp only [asks, hro, Option.any_some, List.any_eq_true]
  exact ⟨_, h, by simp⟩

/-- A control message asks for the offer, or leaves it as it was. -/
theorem remoteOffer_onControl {msg : String} (h : onControl tar a recv fs msg ans = some o) :
    (asks a o.effects (.control msg) = false ∧ o.agent.remoteOffer = a.remoteOffer) ∨
      ∃ ro, a.remoteOffer = some ro ∧ asks a o.effects (.control msg) = true ∧
        o.agent.remoteOffer = some { ro with requested := true } := by
  obtain ⟨a₁, es₁, end₁, hpush, ho⟩ := onControl_cases h
  obtain ⟨hro₁, hes₁⟩ : a₁.remoteOffer = a.remoteOffer ∧ ∀ f ok, .write f ok ∉ es₁ := by
    split at hpush
    · exact ⟨remoteOffer_controlPush hpush, not_write_controlPush hpush⟩
    · obtain ⟨rfl, rfl, -⟩ := hpush
      exact ⟨rfl, fun _ _ h => by cases h⟩
  split at ho
  · rcases controlPull_cases a₁ msg ans with ⟨hpull, -⟩ | ⟨ro, hro, -, hpull⟩
    · rw [hpull, List.append_nil] at ho
      rw [ho]
      exact .inl ⟨asks_false hes₁ _, hro₁⟩
    · rw [hpull] at ho
      rw [ho]
      rw [hro₁] at hro
      have hmem : .write (pullFrame ro.offer.id) ans.wrote ∈
          es₁ ++ [.write (pullFrame ro.offer.id) ans.wrote] :=
        List.mem_append_right _ List.mem_cons_self
      exact .inr ⟨ro, hro, asks_true hro hmem, rfl⟩
  · rw [ho]
    exact .inl ⟨asks_false hes₁ _, hro₁⟩

/-- What one event does to the offer that is held. -/
theorem remoteOffer_handle {ev : Ev} (h : handle tar stageRoot a recv fs ev ans = some o) :
    ∀ ro, o.agent.remoteOffer = some ro →
      (offered recv ev = true ∧ ro.requested = false) ∨
        offered recv ev = false ∧ ∃ ro₀, a.remoteOffer = some ro₀ ∧
          ro.requested = (ro₀.requested || asks a o.effects ev) := by
  intro ro hro
  cases ev with
  | frame f =>
      have hframe := remoteOffer_onFrame h
      cases hoffered : offered recv (.frame f) with
      | true =>
          rw [hoffered, if_pos rfl] at hframe
          obtain ⟨offer, heq⟩ := hframe
          rw [heq] at hro
          cases hro
          exact .inl ⟨rfl, rfl⟩
      | false =>
          rw [hoffered, if_neg Bool.false_ne_true] at hframe
          rcases hframe with heq | heq
          · rw [heq] at hro
            exact .inr ⟨rfl, ro, hro, by simp [asks]⟩
          · rw [heq] at hro
            cases hro
  | control msg =>
      rcases remoteOffer_onControl h with ⟨hasks, heq⟩ | ⟨ro₀, hro₀, hasks, heq⟩
      · rw [heq] at hro
        exact .inr ⟨rfl, ro, hro, by rw [hasks, Bool.or_false]⟩
      · rw [heq] at hro
        cases hro
        exact .inr ⟨rfl, ro₀, hro₀, by rw [hasks, Bool.or_true]⟩
  | tick =>
      have heq : o.agent = a := by
        cases h
        unfold onTick
        split <;> rfl
      rw [heq] at hro
      exact .inr ⟨rfl, ro, hro, by simp [asks]⟩
  | «local» kind content hash =>
      have heq : o.agent.remoteOffer = a.remoteOffer := by
        rcases onLocal_cases h with ⟨-, rfl⟩ | ⟨-, -, offer, -, rfl⟩ | ⟨-, -, r, -, rfl⟩
        · rfl
        · dsimp only
          split <;> rfl
        · rfl
      rw [heq] at hro
      exact .inr ⟨rfl, ro, hro, by simp [asks]⟩
  | disconnected =>
      cases h
      exact .inr ⟨rfl, ro, hro, by simp [asks]⟩

end Handlers

/-! ## Runs -/

section Runs
variable {tar : TarCrate} {stageRoot : Path} {s s' : Pulls}

/-- `requested` says whether a PULL was sent. -/
def Pulls.Marked (s : Pulls) : Prop :=
  ∀ ro, s.sys.agent.remoteOffer = some ro → ro.requested = s.asked

theorem marked_step {act : Act} (h : s.Marked)
    (hstep : (pulls tar stageRoot).step s act = some s') : s'.Marked := by
  obtain ⟨sys, hsys, rfl⟩ := Option.map_eq_some_iff.mp hstep
  intro ro hro
  cases act with
  | main ans =>
      obtain ⟨i, item, rest, o, -, hqueue, hhandle, rfl⟩ := main_eq_some hsys
      have hdrop : (s.sys.after i item rest o).effects.drop s.sys.effects.length = o.effects :=
        List.drop_left
      simp only [askedAfter, hqueue, hdrop]
      rcases remoteOffer_handle hhandle ro hro with ⟨hoffered, hreq⟩ | ⟨hoffered, ro₀, hro₀, hreq⟩
      · rw [if_pos hoffered]
        exact hreq
      · rw [if_neg (by simp [hoffered]), hreq, h ro₀ hro₀]
  | copy sel =>
      cases hsys
      exact h ro hro
  | files fs =>
      cases hsys
      exact h ro hro
  | watch =>
      cases hsys
      rcases watch_cases s.sys with heq | ⟨kind, content, hash, -, -, heq⟩
      · rw [heq] at hro
        exact h ro hro
      · rw [heq] at hro
        exact h ro hro
  | control msg =>
      cases hsys
      exact h ro hro
  | timer =>
      cases hsys
      exact h ro hro
  | connect =>
      obtain ⟨-, rfl⟩ := connect_eq_some hsys
      exact h ro hro
  | read i f =>
      rcases (read_eq_some hsys).2 with rfl | rfl
      · exact h ro hro
      · exact h ro hro
  | hangUp i =>
      obtain ⟨-, rfl⟩ := hangUp_eq_some hsys
      exact h ro hro

theorem marked_of_run {fs : Fs} {clip : Selection} {acts : List Act}
    (h : (pulls tar stageRoot).exec (.init fs clip) acts = some s) : s.Marked :=
  (pulls tar stageRoot).exec_invariant (fun _ h => by cases h)
    (fun _ _ _ hs hst => marked_step hs hst) h

/-- **A crossing.** In every run, with an offer held: `requested` says whether
a PULL was sent since the OFFER came in, whatever has become of it and of the
session; and the next Control "local" sends a PULL for the offer exactly if
none was sent, and nothing at all if one was. -/
theorem pulled_iff (tar : TarCrate) (stageRoot : Path) (fs : Fs) (clip : Selection)
    (acts : List Act) (s s' : Pulls) (ro : RemoteOffer) (source : Source) (rest : List Item)
    (ans : Answers)
    (hrun : (pulls tar stageRoot).exec (.init fs clip) acts = some s)
    (hro : s.sys.agent.remoteOffer = some ro)
    (hqueue : s.sys.queue = ⟨.control "local", source⟩ :: rest)
    (hstep : (pulls tar stageRoot).step s (.main ans) = some s') :
    ro.requested = s.asked ∧
      (s'.sys.effects = s.sys.effects ++ [.write (pullFrame ro.offer.id) ans.wrote] ↔
        s.asked = false) ∧
      (s.asked = true → s'.sys.effects = s.sys.effects ∧ s'.sys.agent = s.sys.agent) := by
  have hmarked := marked_of_run hrun ro hro
  obtain ⟨sys, hsys, rfl⟩ := Option.map_eq_some_iff.mp hstep
  obtain ⟨i, item, rest', o, -, hqueue', hhandle, rfl⟩ := main_eq_some hsys
  rw [hqueue] at hqueue'
  cases hqueue'
  have hcontrol : onControl tar s.sys.agent s.sys.recv s.sys.fs "local" ans = some o := hhandle
  obtain ⟨a₁, es₁, end₁, hpush, ho⟩ := onControl_cases hcontrol
  rw [if_neg (by decide)] at hpush
  obtain ⟨rfl, rfl, rfl⟩ := hpush
  rw [if_pos ⟨rfl, .inl rfl⟩] at ho
  refine ⟨hmarked, ?_⟩
  rcases controlPull_cases s.sys.agent "local" ans with ⟨hpull, hreq⟩ | ⟨ro', hro', hreq, hpull⟩
  · have hasked : s.asked = true := hmarked ▸ (hreq ro hro).1
    rw [hpull] at ho
    have heff : (s.sys.after i ⟨.control "local", source⟩ rest o).effects = s.sys.effects := by
      rw [ho]
      exact List.append_nil _
    refine ⟨⟨fun h => ?_, fun h => ?_⟩, fun _ => ⟨heff, by rw [ho]; rfl⟩⟩
    · rw [heff] at h
      simp at h
    · rw [hasked] at h
      cases h
  · rw [hro] at hro'
    cases hro'
    have hasked : s.asked = false := by
      rw [← hmarked]
      exact hreq.resolve_right (by decide)
    rw [hpull] at ho
    refine ⟨⟨fun _ => hasked, fun _ => by rw [ho]; rfl⟩, fun h => ?_⟩
    rw [hasked] at h
    cases h

end Runs

/-! An offer of three files, and the PULL that a crossing sends. -/

def batchOffer : Offer := ⟨kindTar, 4096, 3, 7⟩

/-- The offer comes in, and the user crosses over. -/
def firstCrossing : List Act :=
  [.connect, .read 0 (offerFrame batchOffer), .main (quiet true), .control "local"]

theorem pulled_iff_firstCrossing : ∃ s s',
    (pulls ustar []).exec (.init (fun _ => .broken) []) firstCrossing = some s ∧
      s.sys.agent.remoteOffer = some ⟨batchOffer, false⟩ ∧
      (pulls ustar []).step s (.main (quiet true)) = some s' ∧
      s'.sys.effects = s.sys.effects ++ [.write (pullFrame 7) true] := by
  have hrun : ((pulls ustar []).exec (.init (fun _ => .broken) []) firstCrossing).map
      (fun s => (s.sys.agent.remoteOffer, s.sys.queue, s.asked,
        ((pulls ustar []).step s (.main (quiet true))).isSome)) =
      some (some ⟨batchOffer, false⟩, [⟨.control "local", .listener⟩], false, true) := by
    decide +kernel
  obtain ⟨s, hs, hstate⟩ := Option.map_eq_some_iff.mp hrun
  simp only [Prod.mk.injEq] at hstate
  obtain ⟨hro, hqueue, hasked, hstep⟩ := hstate
  obtain ⟨s', hs'⟩ := Option.isSome_iff_exists.mp hstep
  have h := pulled_iff ustar [] (fun _ => .broken) [] firstCrossing s s' ⟨batchOffer, false⟩
    .listener [] (quiet true) hs hro hqueue hs'
  exact ⟨s, s', hs, hro, hs', h.2.1.mpr hasked⟩

/-- The PULL is sent.  The peer starts the transfer and aborts it, and the user
crosses over again. -/
def abortedPull : List Act :=
  firstCrossing ++ [.main (quiet true), .read 0 (startFrame kindTar [1, 2, 3]), .main (quiet true),
    .read 0 abortFrame, .main (quiet true), .control "local"]

/-- The PULL is sent.  The session is lost, and the next begins. -/
def lostPull : List Act :=
  firstCrossing ++ [.main (quiet true), .hangUp 0, .main (quiet true), .connect, .control "local"]

/-- After the run the offer is held, a session is open with no transfer in it,
and a crossing does not send the PULL again. -/
def Ignored (acts : List Act) : Prop :=
  ∃ s s', (pulls ustar []).exec (.init (fun _ => .broken) []) acts = some s ∧
    (pulls ustar []).step s (.main (quiet true)) = some s' ∧
    s.sys.session.isSome ∧ s.sys.recv.active = none ∧
    s.sys.queue = [⟨.control "local", .listener⟩] ∧
    s.sys.agent.remoteOffer = some ⟨batchOffer, true⟩ ∧
    s.sys.effects = [.write (pullFrame 7) true] ∧ s'.sys.effects = s.sys.effects

theorem ignored_of_run {acts : List Act}
    (hrun : ((pulls ustar []).exec (.init (fun _ => .broken) []) acts).bind
      (fun s => ((pulls ustar []).step s (.main (quiet true))).map fun s' =>
        decide (s.sys.session.isSome ∧ s.sys.recv.active = none ∧
          s.sys.queue = [⟨.control "local", .listener⟩] ∧
          s.sys.agent.remoteOffer = some ⟨batchOffer, true⟩ ∧
          s.sys.effects = [.write (pullFrame 7) true] ∧ s'.sys.effects = s.sys.effects)) =
      some true) : Ignored acts := by
  obtain ⟨s, hs, hrun⟩ := Option.bind_eq_some_iff.mp hrun
  obtain ⟨s', hs', hstate⟩ := Option.map_eq_some_iff.mp hrun
  exact ⟨s, s', hs, hs', of_decide_eq_true hstate⟩

theorem crossing_ignored : Ignored abortedPull ∧ Ignored lostPull :=
  ⟨ignored_of_run (by decide +kernel), ignored_of_run (by decide +kernel)⟩

end Beaglewing.Agents.Linux
