import TapHold.Host.CallLog
import TapHold.Proofs.Arbiter.Repeated
import TapHold.Proofs.Keyboard.Traced

/-!
# No tap without a cause

Every press that a keyboard without extensions hands over as a tap has a cause in what happened
before it (`tapCause_of_press`): its own release within the term, or the tap before it, of which the
release came within the term and after which no other press was handed over.
-/

set_option autoImplicit false

namespace TapHold

namespace Arbiter

/-- What is known of the candidate and of the held events, while the term stays the same. -/
structure Grounded (term : Word) (down : Position → Bool) (arrived : List KeyEvent)
    (out : List Emission) (a : Arbiter) : Prop where
  term : a.term = term
  sound : Sound a
  orderly : Orderly down a
  chronological : Chronological a
  order : ∀ key, KeepsOrder key arrived out a
  led : LedTo out a

theorem traced_grounded (km : Keymap) (term : Word) :
    Traced km isTimely (Grounded term)
      (fun arrived out d => d.given.event.pressed = true → TapCause term arrived out d) where
  real := fun h _ hc => h.orderly.real_candidate hc
  stays := isTimely_move
  move := fun {_ _ _ _ out' _} m fine h => by
    have kept : out' ≠ [.overflow] := ne_overflow_of_fine fine
    exact {
      term := (congrArg Settings.term (settings_move m)).trans h.term
      sound := sound_move m h.sound
      orderly := orderly_move m h.orderly
      chronological := chronological_move m h.chronological
      order := fun key => keepsOrder_move h.orderly m kept (h.order key)
      led := led_move h.orderly m h.led }
  arrival := fun arrival real next timely h => {
    term := (congrArg Settings.term (settings_arrival arrival)).trans h.term
    sound := sound_arrival arrival real h.sound
    orderly := orderly_arrival arrival real next h.orderly
    chronological := chronological_arrival arrival (isTimely_iff.mp timely) h.chronological
    order := fun key => keepsOrder_arrival h.orderly arrival (h.order key)
    led := led_arrival h.orderly arrival h.led }
  drop := fun {_ _ _ _ b} h hc hl term => by
    have nothing : b.heldEvents = [] := by simp [heldEvents, hc, hl]
    have empty : b.awaited = [] := by
      rw [awaited_of_free (undecided?_of_none hc), hl]
      rfl
    refine ⟨term.trans h.term, sound_of_nothing hc hl, orderly_of_nothing hc hl, ?_, fun key => ?_,
      fun c some => ?_⟩
    · rw [Chronological, nothing]
      exact List.Pairwise.nil
    · rw [KeepsOrder, empty]
      rfl
    · cases hc.symm.trans some
  interpreter := fun i h term => {
    term := term.trans h.term
    sound := ⟨h.sound.real, h.sound.fresh, h.sound.counted⟩
    orderly := ⟨h.orderly.real, h.orderly.fresh, h.orderly.alternates, h.orderly.tapped⟩
    chronological := h.chronological
    order := h.order
    led := by
      intro c hc
      have before := h.led c hc
      rw [← term] at before
      exact before }
  handed := fun m h pressed =>
    h.term ▸ tapCause_of_move h.sound h.orderly h.chronological h.order h.led m pressed
  arriving := fun arrival _ next timely h _ =>
    h.term ▸ tapCause_of_arrival h.orderly h.chronological h.order arrival next
      (isTimely_iff.mp timely)
  more := fun es h pressed => (h pressed).more es

theorem grounded_start (settings : Settings) (layer : LayerNumber) (capacity : Nat) :
    Grounded settings.term allUp [] [] (start settings layer capacity) where
  term := rfl
  sound := sound_of_nothing rfl rfl
  orderly := orderly_of_nothing rfl rfl
  chronological := List.Pairwise.nil
  order := fun _ => rfl
  led := fun _ hc => by cases hc

end Arbiter

namespace Keyboard

/-- Without extensions, while the edges of every key come in turn and none is earlier than an event
that is still held: every press that is handed over has its cause if it is handed over as a tap.
What came and was emitted before it is counted from the last reset or overflow. -/
theorem tapCause_of_press {η : Type} [Host η] (km : Keymap) (settings : Settings)
    (layer : LayerNumber) (capacity : Nat) (host : η) (calls : List (Call η))
    (timely : (start settings layer capacity host NoHooks.none).admitsCalls Arbiter.isTimely km
      allUp calls = true) :
    let told := (start settings layer capacity host NoHooks.none).journal km calls
    ∀ pre d post, told = pre ++ .emitted (.dispatched d) :: post → d.given.event.pressed = true →
      Arbiter.TapCause settings.term (arrivals (sinceDrop pre)) (emissions (sinceDrop pre)) d := by
  intro told pre d post split pressed
  have trace := (Arbiter.traced_grounded km settings.term).calls settings layer capacity host calls
    timely (Arbiter.grounded_start settings layer capacity)
  exact trace.each pre d post split pressed

/-- A tap key is typed while another is undecided, so that its press and its release wait, and is
then pressed again: it is handed over as a first tap out of the backlog, and as a second one at
once. -/
theorem tapCause_of_replayed_run :
    let km := Keymap.ofKeys fun key => if key = ⟨0, 0⟩ then 0x812c else 0x822d
    let calls : List (Call CallLog) :=
      [.event ⟨⟨0, 0⟩, true, ⟨0⟩⟩, .event ⟨⟨0, 1⟩, true, ⟨10⟩⟩, .event ⟨⟨0, 1⟩, false, ⟨20⟩⟩,
        .event ⟨⟨0, 1⟩, true, ⟨30⟩⟩]
    let first := start .standard 0 8 CallLog.empty NoHooks.none
    let told := first.journal km calls
    let tap (ms : Word) (n : Nat) : Dispatched :=
      ⟨⟨⟨⟨0, 1⟩, true, ⟨ms⟩⟩, ⟨n, false⟩⟩, ⟨⟨⟨0, 1⟩, true, ⟨ms⟩⟩, ⟨n, false⟩⟩,
        .request (.call (.register 0x2d)), false⟩
    first.admitsCalls Arbiter.isTimely km allUp calls = true ∧
      told = told.take 4 ++ .emitted (.dispatched (tap 10 1)) :: told.drop 5 ∧
      told = told.take 7 ++ .emitted (.dispatched (tap 30 2)) :: told.drop 8 ∧
      Arbiter.TapCause 200 (arrivals (sinceDrop (told.take 4)))
        (emissions (sinceDrop (told.take 4))) (tap 10 1) ∧
      Arbiter.TapCause 200 (arrivals (sinceDrop (told.take 7)))
        (emissions (sinceDrop (told.take 7))) (tap 30 2) := by
  intro km calls first told tap
  have timely : first.admitsCalls Arbiter.isTimely km allUp calls = true := by decide +kernel
  have one : told = told.take 4 ++ .emitted (.dispatched (tap 10 1)) :: told.drop 5 := by
    decide +kernel
  have two : told = told.take 7 ++ .emitted (.dispatched (tap 30 2)) :: told.drop 8 := by
    decide +kernel
  have cause := tapCause_of_press km .standard 0 8 CallLog.empty calls timely
  exact ⟨timely, one, two, cause _ _ _ one rfl, cause _ _ _ two rfl⟩

end Keyboard

end TapHold
