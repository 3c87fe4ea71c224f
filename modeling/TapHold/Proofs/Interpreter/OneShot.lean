import TapHold.Proofs.Interpreter.Keystroke
import TapHold.Proofs.Keymap.Uniform

/-!
# One-shot modifiers apply to one key only

A session is an interpreter with a host. As long as the host stays steady, it hears of an operation
that presses a code exactly the calls of pressing that code, between the modifiers of the key's own
(`heard_of_keystroke`). Armed one-shot modifiers are added before an ordinary key goes down, and the
byte from before is restored (`log_register_armed`); otherwise the key goes down as it is.
-/

set_option autoImplicit false

namespace TapHold

/-! ## What is heard of a keystroke -/

namespace Keystroke

variable {k : Keystroke} {q : Request}

/-- A request that leaves the modifiers as they are is heard between the modifiers of the
keystroke. -/
theorem log_around (bits : Byte) (spares : q.bitsAfter (k.bits bits) = k.bits bits) :
    (k.around q).log bits = k.front bits ++ q.log (k.bits bits) ++ k.back bits ∧
      (k.around q).bitsAfter bits = bits := by
  obtain ⟨own, code⟩ := k
  cases own with
  | none =>
    have same : bits ||| (0 : Byte) = bits := BitVec.or_zero
    simp only [Keystroke.bits, Option.getD_none, same] at spares
    simp only [around, front, back, Keystroke.bits, Option.getD_none, same, Option.toList_none,
      List.map_nil, List.nil_append, List.append_nil]
    exact ⟨trivial, spares⟩
  | some mods =>
    refine ⟨?_, rfl⟩
    simp only [Keystroke.bits, Option.getD_some] at spares
    simp only [around, front, back, Request.log, Keystroke.bits, Option.getD_some,
      Option.toList_some, List.map_cons, List.map_nil, spares, List.cons_append, List.nil_append]

end Keystroke

/-- What the press of a code that is no ordinary key asks for: a modifier, a mouse key, or
nothing. -/
def Keycode.asked (code : Keycode) (settings : Settings) : Request :=
  if code.isModifier then .call (.addModifiers code.modifierBit)
  else if code.isMouse && settings.mouseKeys then .call (.mouseOn code)
  else .nothing

theorem Keycode.presses_asked (code : Keycode) (settings : Settings) :
    (code.asked settings).presses = false := by
  unfold asked
  repeat' split
  all_goals rfl

namespace Interpreter

variable {i : Interpreter} {code : Keycode}

theorem register_armed (on : i.settings.oneShot = true) (isKey : code.isKey = true)
    (armed : i.oneShot.isArmed = true) :
    i.register code = ⟨{ i with oneShot := i.oneShot.spend },
      .under i.oneShot.mods (.call (.register code))⟩ := by
  have waiting : i.oneShotMods? = some i.oneShot.mods := by
    rw [oneShotMods?, if_pos on, OneShot.waiting?, if_pos armed]
  simp only [register, isKey, if_true, waiting]

theorem register_unarmed (isKey : code.isKey = true) (unarmed : i.oneShot.isArmed = false) :
    i.register code = ⟨i, .call (.register code)⟩ := by
  have nothing : i.oneShotMods? = none := by
    rw [oneShotMods?, OneShot.waiting?, unarmed]
    simp
  simp only [register, isKey, if_true, nothing]

/-- A code that is no ordinary key takes no one-shot modifiers. -/
theorem register_other (other : code.isKey = false) :
    i.register code = ⟨i, code.asked i.settings⟩ := by
  simp only [register, Keycode.asked, other, Bool.false_eq_true, if_false]
  split
  · rfl
  · split <;> rfl

end Interpreter

/-- Where no ordinary key is pressed, none is heard. -/
theorem Request.notMem_log {q : Request} (none : q.presses = false) (bits before : Byte)
    (code : Keycode) : (before, HostCall.register code) ∉ q.log bits := by
  induction q generalizing bits with
  | nothing => exact List.not_mem_nil
  | call c =>
    intro h
    obtain ⟨-, rfl⟩ := Prod.mk.inj (List.mem_singleton.mp h)
    cases none
  | under more q ih =>
    -- the two calls around the request add and set modifiers
    intro h
    rcases List.mem_cons.mp h with first | rest
    · cases first
    rcases List.mem_append.mp rest with inner | last
    · exact ih none _ inner
    · cases List.mem_singleton.mp last

theorem Keystroke.presses_around (k : Keystroke) (q : Request) :
    (k.around q).presses = q.presses := by
  unfold Keystroke.around
  split <;> rfl

/-! ## Sessions -/

/-- An interpreter with its host. -/
structure Session (η : Type) where
  interpreter : Interpreter
  host : η

namespace Session

variable {η : Type} [Host η]

/-- The session after an operation. -/
def perform (s : Session η) (x : Operation) : Session η :=
  ⟨(s.interpreter.operate x).interpreter, (s.interpreter.operate x).request.run s.host⟩

/-- The session after some operations. -/
def run (s : Session η) (xs : List Operation) : Session η := xs.foldl perform s

/-- The calls that the host gets at an operation, each behind the modifier byte from just before
it. -/
def heard (s : Session η) (x : Operation) : List (Byte × HostCall) :=
  ((s.interpreter.operate x).request.run (Tapped.start s.host)).log

/-- At every operation the host's modifier byte is what the calls that it hears make of it. -/
def Steady : Session η → List Operation → Prop
  | _, [] => True
  | s, x :: xs =>
    Tapped.Steady (Host.modifiers s.host) (s.heard x) ∧
      Host.modifiers (s.perform x).host =
        Tapped.bitsAfter (Host.modifiers s.host) (s.heard x) ∧
      Steady (s.perform x) xs

variable {s : Session η} {x : Operation} {xs ys : List Operation} {k : Keystroke}

theorem interpreter_run (s : Session η) (xs : List Operation) :
    (s.run xs).interpreter = s.interpreter.after xs := by
  induction xs generalizing s with
  | nil => rfl
  | cons x xs ih => exact ih (s.perform x)

/-- A session stays steady. -/
theorem Steady.run (h : s.Steady (xs ++ ys)) : (s.run xs).Steady ys := by
  induction xs generalizing s with
  | nil => exact h
  | cons x xs ih => exact ih h.2.2

/-- What a steady host hears of an operation, and the modifier byte that it has then. -/
theorem Steady.heard (h : s.Steady (x :: xs)) :
    s.heard x = (s.interpreter.operate x).request.log (Host.modifiers s.host) ∧
      Host.modifiers (s.perform x).host =
        (s.interpreter.operate x).request.bitsAfter (Host.modifiers s.host) := by
  obtain ⟨log, bits, -⟩ := h
  have told : s.heard x = _ := Request.log_run _ s.host log
  refine ⟨told, ?_⟩
  rw [bits, told, Request.bitsAfter_log]

/-- A host that remembers its calls is steady. -/
theorem steady_callLog (s : Session CallLog) (xs : List Operation) : s.Steady xs := by
  induction xs generalizing s with
  | nil => trivial
  | cons x xs ih =>
    obtain ⟨calls, log, host, same⟩ := (s.interpreter.operate x).request.record_run
      (Tapped.start s.host)
    obtain ⟨steady, bits⟩ := CallLog.steady_record s.host calls
    have heard : s.heard x = Tapped.record s.host calls := log
    have left : (s.perform x).host = calls.foldl Host.perform s.host := same.symm.trans host
    refine ⟨?_, ?_, ih _⟩
    · rw [heard]
      exact steady
    · rw [heard, left]
      exact bits

/-- No report is lost at the operations. -/
def Lossless : Session ReportHost → List Operation → Prop
  | _, [] => True
  | s, x :: xs => s.host.Lossless ((s.heard x).map Prod.snd) ∧ Lossless (s.perform x) xs

/-- A reporting host is steady while it loses nothing. -/
theorem steady_reportHost {s : Session ReportHost} {xs : List Operation} (h : s.Lossless xs) :
    s.Steady xs := by
  induction xs generalizing s with
  | nil => trivial
  | cons x xs ih =>
    obtain ⟨told, later⟩ := h
    obtain ⟨calls, log, host, same⟩ := (s.interpreter.operate x).request.record_run
      (Tapped.start s.host)
    have heard : s.heard x = Tapped.record s.host calls := log
    have left : (s.perform x).host = calls.foldl Host.perform s.host := same.symm.trans host
    rw [heard, Tapped.map_snd_record] at told
    obtain ⟨steady, bits⟩ := ReportHost.steady_record told
    refine ⟨?_, ?_, ih later⟩
    · rw [heard]
      exact steady
    · rw [heard, left]
      exact bits

/-- What a steady host hears of an operation that presses a code. -/
theorem Steady.heard_of_keystroke (h : s.Steady (x :: xs))
    (pressed : s.interpreter.keystroke? x = some k) {q : Request}
    (asked : (s.interpreter.register k.code).request = q)
    (spares : ∀ bits, q.bitsAfter bits = bits) :
    let bits := Host.modifiers s.host
    s.heard x = k.front bits ++ q.log (k.bits bits) ++ k.back bits ∧
      Host.modifiers (s.perform x).host = bits := by
  have told := h.heard
  rw [Interpreter.operate_of_keystroke pressed, asked] at told
  obtain ⟨log, after⟩ := Keystroke.log_around (k := k) (q := q) (Host.modifiers s.host) (spares _)
  exact ⟨told.1.trans log, told.2.trans after⟩

/-- What an operation that presses a code does to the interpreter. -/
theorem interpreter_perform (pressed : s.interpreter.keystroke? x = some k) :
    (s.perform x).interpreter = (s.interpreter.register k.code).interpreter := by
  rw [perform, Interpreter.operate_of_keystroke pressed]

/-- Armed modifiers are given to an ordinary key, and to it only. -/
theorem Steady.heard_armed (h : s.Steady (x :: xs)) (on : s.interpreter.settings.oneShot = true)
    (pressed : s.interpreter.keystroke? x = some k) (isKey : k.code.isKey = true)
    (armed : s.interpreter.oneShot.isArmed = true) :
    let before := Host.modifiers s.host
    let bits := k.bits before
    let mods := s.interpreter.oneShot.mods
    s.heard x = k.front before ++ [(bits, .addModifiers mods),
      (bits ||| mods, .register k.code), (bits ||| mods, .setModifiers bits)] ++ k.back before ∧
    Host.modifiers (s.perform x).host = before ∧
    (s.perform x).interpreter.oneShot.isArmed = false := by
  intro before bits mods
  have registered := Interpreter.register_armed on isKey armed
  obtain ⟨log, after⟩ := h.heard_of_keystroke pressed (congrArg Response.request registered)
    fun _ => rfl
  refine ⟨log, after, ?_⟩
  rw [interpreter_perform pressed, registered]
  simp [OneShot.isArmed, OneShot.spend]

/-- Where nothing is armed, an ordinary key goes down as it is. -/
theorem Steady.heard_unarmed (h : s.Steady (x :: xs))
    (pressed : s.interpreter.keystroke? x = some k) (isKey : k.code.isKey = true)
    (unarmed : s.interpreter.oneShot.isArmed = false) :
    let before := Host.modifiers s.host
    s.heard x = k.front before ++ [(k.bits before, .register k.code)] ++ k.back before ∧
    Host.modifiers (s.perform x).host = before ∧
    (s.perform x).interpreter.oneShot = s.interpreter.oneShot := by
  intro before
  have registered := Interpreter.register_unarmed isKey unarmed
  obtain ⟨log, after⟩ := h.heard_of_keystroke pressed (congrArg Response.request registered)
    fun _ => rfl
  refine ⟨log, after, ?_⟩
  rw [interpreter_perform pressed, registered]

/-- A code that is no ordinary key leaves armed modifiers for the next one. -/
theorem Steady.heard_other (h : s.Steady (x :: xs))
    (pressed : s.interpreter.keystroke? x = some k) (other : k.code.isKey = false) :
    let asked := k.around (k.code.asked s.interpreter.settings)
    s.heard x = asked.log (Host.modifiers s.host) ∧
      (∀ bits code, (bits, .register code) ∉ s.heard x) ∧
      (s.perform x).interpreter.oneShot = s.interpreter.oneShot := by
  intro asked
  have registered := Interpreter.register_other (i := s.interpreter) other
  have heard : s.heard x = asked.log (Host.modifiers s.host) := by
    rw [h.heard.1, Interpreter.operate_of_keystroke pressed, registered]
  refine ⟨heard, fun bits code => ?_, by rw [interpreter_perform pressed, registered]⟩
  rw [heard]
  exact Request.notMem_log ((k.presses_around _).trans (k.code.presses_asked _)) _ _ _

/-- Between two operations that spend one-shot modifiers there is one that arms them. -/
theorem exists_arming_between {pre mid : List Operation} {y : Operation}
    (on : s.interpreter.settings.oneShot = true) (first : (s.run pre).interpreter.Spends x)
    (second : (s.run (pre ++ x :: mid)).interpreter.Spends y) :
    ∃ m z n, mid = m ++ z :: n ∧ (s.run (pre ++ x :: m)).interpreter.Arms z := by
  have through (ys : List Operation) : (s.run (pre ++ x :: ys)).interpreter =
      ((s.run pre).perform x).interpreter.after ys := by
    rw [interpreter_run, Interpreter.after_append, ← interpreter_run]
    rfl
  have on' : (s.run pre).interpreter.settings.oneShot = true := by
    rw [interpreter_run, Interpreter.settings_after]
    exact on
  have on'' : ((s.run pre).perform x).interpreter.settings.oneShot = true := by
    rw [perform, Interpreter.settings_operate]
    exact on'
  have spent : ((s.run pre).perform x).interpreter.oneShot.ready = false :=
    Interpreter.ready_of_spends on' first
  -- what is spent the second time has been made ready in between
  have ready : (((s.run pre).perform x).interpreter.after mid).oneShot.ready = true := by
    obtain ⟨-, -, -, armed⟩ := second
    rw [through, OneShot.isArmed, Bool.and_eq_true, Bool.and_eq_true] at armed
    exact armed.1.2
  obtain ⟨m, z, n, split, arms⟩ := Interpreter.exists_arming on'' spent ready
  exact ⟨m, z, n, split, by rw [through]; exact arms⟩

/-- **One-shot modifiers apply to one key only**, where the feature is on and the host is steady.

An operation that presses an ordinary key while one-shot modifiers are armed is heard as the key
going down with these modifiers added to the byte from just before; then that byte is restored, and
nothing is armed any more. While nothing is armed, as when the feature is disabled by its toggle or
no modifiers are ready, the key goes down under the byte as it is, and the one-shot modifiers stay
as they are. Both happen between the modifiers of the key's own, if it has any, and leave the byte
from before the operation. Codes of modifiers and mouse keys, and codes that stand for no key, are
heard as what they are and leave the one-shot modifiers as they are. No key goes down in any other
way.

Between two operations that press an ordinary key while one-shot modifiers are armed, a one-shot key
was carried out as a press with a tap count of one. -/
theorem oneShot_applies_once (s : Session η) (xs : List Operation)
    (on : s.interpreter.settings.oneShot = true) (steady : s.Steady xs) :
    (∀ pre x post k, xs = pre ++ x :: post →
      let t := s.run pre
      let before := Host.modifiers t.host
      let bits := k.bits before
      let mods := t.interpreter.oneShot.mods
      t.interpreter.keystroke? x = some k →
        (k.code.isKey = true → t.interpreter.oneShot.isArmed = true →
          t.heard x = k.front before ++ [(bits, .addModifiers mods),
            (bits ||| mods, .register k.code), (bits ||| mods, .setModifiers bits)] ++
              k.back before ∧
          Host.modifiers (t.perform x).host = before ∧
          (t.perform x).interpreter.oneShot.isArmed = false) ∧
        (k.code.isKey = true → t.interpreter.oneShot.isArmed = false →
          t.heard x = k.front before ++ [(bits, .register k.code)] ++ k.back before ∧
          Host.modifiers (t.perform x).host = before ∧
          (t.perform x).interpreter.oneShot = t.interpreter.oneShot) ∧
        (k.code.isKey = false →
          t.heard x = (k.around (k.code.asked t.interpreter.settings)).log before ∧
          (∀ bits code, (bits, .register code) ∉ t.heard x) ∧
          (t.perform x).interpreter.oneShot = t.interpreter.oneShot)) ∧
    (∀ pre x post, xs = pre ++ x :: post → (s.run pre).interpreter.keystroke? x = none →
      ∀ bits code, (bits, .register code) ∉ (s.run pre).heard x) ∧
    (∀ pre x mid y post, xs = pre ++ x :: (mid ++ y :: post) →
      (s.run pre).interpreter.Spends x → (s.run (pre ++ x :: mid)).interpreter.Spends y →
        ∃ m z n, mid = m ++ z :: n ∧ (s.run (pre ++ x :: m)).interpreter.Arms z) := by
  refine ⟨?_, ?_, ?_⟩
  · rintro pre x post k rfl t before bits mods pressed
    have here : t.Steady (x :: post) := steady.run
    have feature : t.interpreter.settings.oneShot = true := by
      rw [interpreter_run, Interpreter.settings_after]
      exact on
    exact ⟨here.heard_armed feature pressed, here.heard_unarmed pressed, here.heard_other pressed⟩
  · rintro pre x post rfl none bits code
    rw [steady.run.heard.1]
    exact Request.notMem_log (Interpreter.presses_operate none) _ _ _
  · rintro pre x mid y post rfl first second
    exact exists_arming_between on first second

/-- Shift is armed by a tap, then by another one. A code of control takes nothing, a key under
control takes the modifiers, and so does the key after the second tap. -/
theorem oneShot_of_two_taps :
    let km := Keymap.ofKeys fun key => if key.col = 0 then 0x2200 else 0x0105
    let tap (pressed : Bool) : Operation :=
      .dispatch km ⟨⟨⟨0, 0⟩, pressed, ⟨0⟩⟩, ⟨1, false⟩⟩ false
    let key : Operation := .dispatch km (.ofEvent ⟨⟨0, 1⟩, true, ⟨10⟩⟩) false
    let pre := [tap true, tap false, .register 0xe4]
    let mid := [tap true, tap false]
    let s : Session CallLog := ⟨.start .standard 0, .empty⟩
    (s.run pre).heard key = [(0x10, .addModifiers 1), (0x11, .addModifiers 2), (0x13, .register 5),
      (0x13, .setModifiers 0x11), (0x11, .setModifiers 0x10)] ∧
    ((s.run pre).perform key).interpreter.oneShot.isArmed = false ∧
    ∃ m z n, mid = m ++ z :: n ∧ (s.run (pre ++ key :: m)).interpreter.Arms z := by
  intro km tap key pre mid s
  obtain ⟨pressing, -, between⟩ := oneShot_applies_once s (pre ++ key :: (mid ++ key :: [])) rfl
    (steady_callLog s _)
  have own : (s.run pre).interpreter.keystroke? key = some ⟨some 1, 5⟩ := by decide +kernel
  have own' : (s.run (pre ++ key :: mid)).interpreter.keystroke? key = some ⟨some 1, 5⟩ := by
    decide +kernel
  obtain ⟨armed, -⟩ := pressing pre key (mid ++ key :: []) ⟨some 1, 5⟩ rfl own
  obtain ⟨heard, -, spent⟩ := armed (by decide) (by decide +kernel)
  refine ⟨?_, spent, ?_⟩
  · rw [heard]
    decide +kernel
  · exact between pre key mid key [] rfl ⟨_, own, by decide, by decide +kernel⟩
      ⟨_, own', by decide, by decide +kernel⟩

end Session

end TapHold
