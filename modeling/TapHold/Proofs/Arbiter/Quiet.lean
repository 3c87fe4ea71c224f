import TapHold.Proofs.Arbiter.Orderly
import TapHold.Proofs.Keymap.Uniform

/-!
# No press is dispatched twice

A counted tap is overruled when a press of another key waits behind it. The overruled press is then
a candidate again, and is dispatched a second time. This takes a key that is bound to modifiers when
held and a key when tapped, and it takes a first tap that was not overruled although the other press
was waiting already, so that the key was bound to something else at the time. Where the layers do
not change the kind of such a key (`Keymap.ModsTapsEverywhere`), no press of another key waits
behind a second press of the candidate's key (`Quiet`), and no press is dispatched twice
(`Quiet.once`).
-/

set_option autoImplicit false

namespace TapHold

/-- Some layers bind the key to modifiers when held and a key when tapped. -/
def Keymap.HasModsTapKey (km : Keymap) (settings : Settings) (key : Position) : Prop :=
  ∃ (layers : Layers) (mods : Mods) (code : Keycode),
    km.resolve layers settings key = .ok (.modsTap mods (.key code))

/-- A key that some layers bind to modifiers when held and a key when tapped is bound to such an
action by all layers. -/
def Keymap.ModsTapsEverywhere (km : Keymap) (settings : Settings) : Prop :=
  ∀ key, km.HasModsTapKey settings key → ∀ layers, ∃ (mods : Mods) (code : Keycode),
    km.resolve layers settings key = .ok (.modsTap mods (.key code))

theorem Keymap.Uniform.modsTapsEverywhere {km : Keymap} {settings : Settings}
    (uniform : km.Uniform settings) : km.ModsTapsEverywhere settings := by
  intro key has layers
  obtain ⟨layers', mods, code, found⟩ := has
  exact ⟨mods, code, (uniform key layers layers').trans found⟩

theorem Interpreter.isModsTapKeyAt_iff (i : Interpreter) (km : Keymap) (key : Position) :
    i.isModsTapKeyAt km key = true ↔ ∃ (mods : Mods) (code : Keycode),
      km.resolve i.layers i.settings key = .ok (.modsTap mods (.key code)) := by
  unfold isModsTapKeyAt resolve
  constructor
  · intro h
    split at h
    · rename_i action found
      rw [found]
      cases action with
      | modsTap mods tap =>
        cases tap with
        | oneShot => cases h
        | key code => exact ⟨mods, code, rfl⟩
      | _ => cases h
    · cases h
  · rintro ⟨mods, code, found⟩
    rw [found]
    rfl

namespace Arbiter

variable {km : Keymap} {a b : Arbiter} {c r : Record} {rest : List Record} {out : List Emission}
  {down : Position → Bool} {e : KeyEvent}

/-- No press of another key waits behind a press of the key of a counted tap. -/
def Quiet (km : Keymap) (a : Arbiter) : Prop :=
  ∀ c, a.candidate = some c → 0 < c.tap.count →
    km.HasModsTapKey a.interpreter.settings c.event.key →
      (a.line.map Record.event).Pairwise fun p s => p.pressed = true → p.key = c.event.key →
        s.pressed = true → s.key = c.event.key

/-- A key with modifiers stays a candidate after its tap only if no press of another key waits. -/
theorem no_other_press_of_tap (everywhere : km.ModsTapsEverywhere a.interpreter.settings)
    (real : c.isTick = false) (pressed : c.event.pressed = true) {d : Record}
    (hd : (a.dispatchTap km c).arbiter.candidate = some d)
    (has : km.HasModsTapKey a.interpreter.settings c.event.key) :
    ∀ s ∈ a.line, s.event.pressed = true → s.event.key = c.event.key := by
  have modsTap : a.interpreter.isModsTapKeyAt km c.event.key = true :=
    (a.interpreter.isModsTapKeyAt_iff km c.event.key).mpr
      (everywhere c.event.key has a.interpreter.layers)
  intro s hs isPress
  by_contra other
  have found : a.backlog.hasOtherPress c.event.key = true :=
    List.any_eq_true.mpr ⟨s, hs, by simp [isPress, other]⟩
  rw [candidate_dispatchTap, if_pos (dispatchTap_overruled real pressed modsTap (Or.inr found))] at hd
  cases hd

theorem pairwise_of_no_other_press {es : List KeyEvent} {key : Position}
    (h : ∀ s ∈ es, s.pressed = true → s.key = key) :
    es.Pairwise fun p s => p.pressed = true → p.key = key → s.pressed = true → s.key = key := by
  rw [List.pairwise_iff_forall_sublist]
  intro p s pair _ _ pressed
  exact h s (pair.subset (by simp)) pressed

theorem Quiet.tail {key : Position} (q : Quiet km a) (hl : a.line = r :: rest)
    (hc : a.candidate = some c) (pos : 0 < c.tap.count) (same : key = c.event.key)
    (has : km.HasModsTapKey a.interpreter.settings key) :
    (rest.map Record.event).Pairwise fun p s => p.pressed = true → p.key = key →
      s.pressed = true → s.key = key := by
  subst same
  have whole := q c hc pos has
  rw [hl] at whole
  exact (List.pairwise_cons.mp whole).2

theorem quiet_move (everywhere : km.ModsTapsEverywhere a.interpreter.settings)
    (o : Orderly down a) (m : Move km a out b) (q : Quiet km a) : Quiet km b := by
  intro d hd pos has
  rw [settings_move m] at has
  cases m with
  | lapse t hc up late => cases hd
  | @interrupt c hc waits =>
    obtain rfl := Option.some.inj hd
    exact q c hc pos has
  | hold hc hu => cases hd
  | @tap c r rest hc hu hl own =>
    have event := event_of_candidate_dispatchTap hd
    rw [event] at has ⊢
    have pressed : c.event.pressed = true := (Record.isUndecided_iff.mp hu).1
    apply pairwise_of_no_other_press
    intro s hs
    -- the release in front takes part in the tap, which leaves its event as it was
    have waits : s ∈ a.line.map Record.event := hl ▸ hs
    obtain ⟨t, ht, rfl⟩ := List.mem_map.mp waits
    exact no_other_press_of_tap everywhere (o.real_candidate hc) pressed hd has t ht
  | @overtake c r pre post hc hu hl up other untyped =>
    rw [candidate_withLine, candidate_dispatch, hc] at hd
    obtain rfl := Option.some.inj hd
    simp [Record.isUndecided, Nat.ne_of_gt pos] at hu
  | @pass r rest free hl plain other =>
    rw [candidate_withLine, candidate_dispatch] at hd
    exact q.tail hl hd pos rfl has
  | @start r rest free hl pressed single alone =>
    obtain rfl := Option.some.inj hd
    exact absurd (o.fresh r (by simp [hl]) pressed) (Nat.ne_of_gt pos)
  | @startTap r rest free hl hu single own =>
    have event := event_of_candidate_dispatchTap hd
    rw [event] at has ⊢
    have pressed : r.event.pressed = true := (Record.isUndecided_iff.mp hu).1
    apply pairwise_of_no_other_press
    intro s hs
    rw [line_withLine, map_event_modifyFirstIn] at hs
    obtain ⟨t, ht, rfl⟩ := List.mem_map.mp hs
    exact no_other_press_of_tap everywhere (o.real_line (by simp [hl])) pressed hd has t
      (hl ▸ List.mem_cons_of_mem r ht)
  | @again c r rest hc up counted calm hl pressed same =>
    obtain rfl := Option.some.inj hd
    rw [event_dispatch] at has ⊢
    exact q.tail hl hc counted same has
  | @release c r rest keep hc pressed counted hl up same =>
    cases keep with
    | false => cases hd
    | true =>
      obtain rfl := Option.some.inj hd
      rw [event_dispatch] at has ⊢
      exact q.tail hl hc counted same has
  | displace t hc pressed many => cases hd
  | overflow => cases hd

theorem quiet_arrival (everywhere : km.ModsTapsEverywhere a.interpreter.settings)
    (o : Orderly down a) (arrival : Arrival km e a out b) : Quiet km b := by
  intro d hd pos has
  rw [settings_arrival arrival] at has
  cases arrival with
  | join loose alone =>
    have decided : d.isUndecided = false := Record.isUndecided_of_pos pos
    rw [line_withLine, alone d hd decided]
    exact List.pairwise_singleton _ _
  | @tap c hc hu own =>
    have event := event_of_candidate_dispatchTap hd
    rw [event] at has ⊢
    have pressed : c.event.pressed = true := (Record.isUndecided_iff.mp hu).1
    apply pairwise_of_no_other_press
    intro s hs isPress
    rw [line_withLine, List.map_append] at hs
    rcases List.mem_append.mp hs with waits | last
    · obtain ⟨t, ht, rfl⟩ := List.mem_map.mp waits
      exact no_other_press_of_tap everywhere (o.real_candidate hc) pressed hd has t ht isPress
    · rw [List.mem_singleton.mp last] at isPress
      cases (up_of_isTapRelease own).symm.trans isPress

/-- In a quiet arbiter no counted tap is overruled any more. -/
theorem Quiet.once (q : Quiet km a) (hc : a.candidate = some c) (pos : 0 < c.tap.count)
    (modsTap : a.interpreter.isModsTapKeyAt km c.event.key = true)
    {es : List KeyEvent} (h : a.awaited = e :: es) (pressed : e.pressed = true)
    (same : e.key = c.event.key) : a.backlog.hasOtherPress c.event.key = false := by
  have decided : c.isUndecided = false := Record.isUndecided_of_pos pos
  rw [awaited_of_free (undecided?_of_decided hc decided)] at h
  obtain ⟨mods, code, found⟩ := (a.interpreter.isModsTapKeyAt_iff km c.event.key).mp modsTap
  have pairs := q c hc pos ⟨_, mods, code, found⟩
  rw [h] at pairs
  have behind := (List.pairwise_cons.mp pairs).1
  apply List.any_eq_false.mpr
  intro s hs other
  simp only [Bool.and_eq_true, bne_iff_ne] at other
  have member : s.event ∈ e :: es := h ▸ List.mem_map_of_mem hs
  rcases List.mem_cons.mp member with first | waits
  · exact other.2 (first ▸ same)
  · exact other.2 (behind s.event waits pressed same other.1)

end Arbiter

end TapHold
