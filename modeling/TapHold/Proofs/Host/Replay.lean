import TapHold.Proofs.Host.Call

/-!
# A reader of the reports holds what the host holds

A reader starts with nothing down and applies the reports in the order in which it takes them from
the queue. However its reads and the calls of the host follow one another, the reports that still
wait lead from what the reader holds to what the host holds, and each of them changes something
when its turn comes, unless it reports that everything was let go (`replay_queue_eq_held`). The
invariant is `Followed`; a lost report keeps it because the queue and the host are emptied together.
-/

set_option autoImplicit false

namespace TapHold

/-- What is held down after some reports, oldest first. -/
def replay (rs : List Report) (h : Held) : Held := rs.foldl (fun h r => r.applyTo h) h

@[simp] theorem replay_nil (h : Held) : replay [] h = h := rfl

@[simp] theorem replay_cons (r : Report) (rs : List Report) (h : Held) :
    replay (r :: rs) h = replay rs (r.applyTo h) := rfl

theorem replay_append (rs ts : List Report) (h : Held) :
    replay (rs ++ ts) h = replay ts (replay rs h) := List.foldl_append

theorem replay_concat (rs : List Report) (r : Report) (h : Held) :
    replay (rs ++ [r]) h = r.applyTo (replay rs h) := replay_append rs [r] h

/-- Every report changes something when its turn comes, unless it reports that everything was let
go. -/
def Telling (rs : List Report) (h : Held) : Prop :=
  ∀ (ts : List Report) (r : Report), (ts ++ [r]) <+: rs → r ≠ .clear →
    r.applyTo (replay ts h) ≠ replay ts h

theorem telling_nil (h : Held) : Telling [] h := by
  intro ts r front
  exact absurd (List.prefix_nil.mp front) (by simp)

theorem Telling.concat {rs : List Report} {r : Report} {h : Held} (t : Telling rs h)
    (tells : r ≠ .clear → r.applyTo (replay rs h) ≠ replay rs h) : Telling (rs ++ [r]) h := by
  intro ts s front
  rcases List.prefix_concat_iff.mp front with same | earlier
  · obtain ⟨rfl, last⟩ := List.append_inj' same rfl
    obtain rfl := List.singleton_inj.mp last
    exact tells
  · exact t ts s earlier

theorem Telling.drop {rs : List Report} {h : Held} (t : Telling rs h) (n : Nat) :
    Telling (rs.drop n) (replay (rs.take n) h) := by
  intro ts r front kind
  have whole : (rs.take n ++ ts) ++ [r] <+: rs := by
    rw [List.append_assoc]
    calc rs.take n ++ (ts ++ [r])
      _ <+: rs.take n ++ rs.drop n := (List.prefix_append_right_inj _).mpr front
      _ = rs := List.take_append_drop n rs
  rw [← replay_append]
  exact t _ r whole kind

/-- A reader that holds `reader` can follow the host by the reports in its queue. -/
structure Followed (host : ReportHost) (reader : Held) : Prop where
  fits : host.queue.length ≤ host.capacity
  replayed : replay host.queue reader = host.held
  telling : Telling host.queue reader

namespace Followed

variable {host : ReportHost} {reader : Held}

theorem empty (capacity : Nat) : Followed (.empty capacity) .nothing where
  fits := Nat.zero_le _
  replayed := rfl
  telling := telling_nil _

/-- The host holds something else and sends a report that leads a reader there, unless it finds the
queue full. -/
theorem send (f : Followed host reader) (pos : 0 < host.capacity) {held : Held} {r : Report}
    (leads : r.applyTo host.held = held) (tells : r ≠ .clear → held ≠ host.held) :
    Followed ({ host with held }.send r) reader := by
  unfold ReportHost.send
  split
  · rename_i room
    refine ⟨?_, ?_, f.telling.concat ?_⟩
    · show (host.queue ++ [r]).length ≤ host.capacity
      rw [List.length_append]
      exact room
    · rw [replay_concat, f.replayed, leads]
    · rw [f.replayed, leads]
      exact tells
  · have one : [Report.clear].take host.capacity = [.clear] := List.take_of_length_le pos
    refine ⟨?_, ?_, ?_⟩
    · show ([Report.clear].take host.capacity).length ≤ host.capacity
      rw [one]
      exact pos
    · simp [one, Report.applyTo]
    · rw [one]
      exact (telling_nil reader).concat fun kind => absurd rfl kind

theorem perform (f : Followed host reader) (pos : 0 < host.capacity) (c : HostCall) :
    Followed (host.perform c) reader := by
  by_cases clear : c = .clearAll
  · subst clear
    exact f.send pos rfl fun kind => absurd rfl kind
  · rw [ReportHost.perform_eq_update host c clear]
    unfold ReportHost.update
    split
    · exact f
    · rename_i changes
      exact f.send pos (c.applyTo_report host.held changes) fun _ => changes

theorem read (f : Followed host reader) (n : Nat) :
    Followed (host.read n).2 (replay (host.read n).1 reader) where
  fits := Nat.le_trans (by simp [ReportHost.read]) f.fits
  replayed := by
    rw [← replay_append]
    exact (congrArg (replay · reader) (List.take_append_drop n host.queue)).trans f.replayed
  telling := f.telling.drop n

end Followed

/-- What can happen between a host and its reader. -/
inductive Exchange where
  | call (c : HostCall)
  /-- The reader takes up to `n` reports from the queue and applies them. -/
  | read (n : Nat)

/-- A host and what its reader holds. -/
structure Link where
  host : ReportHost
  reader : Held

namespace Link

/-- Nothing has happened yet. -/
def start (capacity : Nat) : Link := ⟨.empty capacity, .nothing⟩

def step (l : Link) : Exchange → Link
  | .call c => { l with host := l.host.perform c }
  | .read n => ⟨(l.host.read n).2, replay (l.host.read n).1 l.reader⟩

def run (l : Link) (xs : List Exchange) : Link := xs.foldl step l

theorem capacity_step (l : Link) (x : Exchange) : (l.step x).host.capacity = l.host.capacity := by
  cases x with
  | read n => rfl
  | call c =>
    show (l.host.perform c).capacity = l.host.capacity
    by_cases clear : c = .clearAll
    · subst clear
      exact ReportHost.capacity_send _ _
    · rw [ReportHost.perform_eq_update l.host c clear]
      exact ReportHost.capacity_update _ _ _

theorem followed_step {l : Link} (pos : 0 < l.host.capacity) (f : Followed l.host l.reader)
    (x : Exchange) : Followed (l.step x).host (l.step x).reader := by
  cases x with
  | call c => exact f.perform pos c
  | read n => exact f.read n

theorem followed_run {l : Link} (pos : 0 < l.host.capacity) (f : Followed l.host l.reader)
    (xs : List Exchange) : Followed (l.run xs).host (l.run xs).reader := by
  induction xs generalizing l with
  | nil => exact f
  | cons x xs ih =>
    have pos' : 0 < (l.step x).host.capacity := by rwa [capacity_step]
    exact ih pos' (followed_step pos f x)

theorem capacity_run (l : Link) (xs : List Exchange) :
    (l.run xs).host.capacity = l.host.capacity := by
  induction xs generalizing l with
  | nil => rfl
  | cons x xs ih => exact (ih (l.step x)).trans (capacity_step l x)

end Link

/-- Whatever calls and reads have happened, the waiting reports lead from what the reader holds to
what the host holds, and each of them changes something when its turn comes, unless it reports that
everything was let go. A call that asks for nothing new sends no report; any other is followed, or
replaced by letting everything go when the queue is full. -/
theorem replay_queue_eq_held (capacity : Nat) (pos : 0 < capacity) (xs : List Exchange) :
    let l := (Link.start capacity).run xs
    replay l.host.queue l.reader = l.host.held ∧
      (∀ (ts : List Report) (r : Report), (ts ++ [r]) <+: l.host.queue → r ≠ .clear →
        r.applyTo (replay ts l.reader) ≠ replay ts l.reader) ∧
      (∀ c : HostCall, c ≠ .clearAll → c.applyTo l.host.held = l.host.held →
        l.host.perform c = l.host) ∧
      (∀ c : HostCall, (l.host.perform c).held = c.applyTo l.host.held ∨
        (l.host.queue.length = capacity ∧ (l.host.perform c).held = .nothing ∧
          (l.host.perform c).queue = [.clear])) := by
  intro l
  have followed : Followed l.host l.reader := Link.followed_run pos (Followed.empty capacity) xs
  have room : l.host.capacity = capacity := Link.capacity_run (Link.start capacity) xs
  refine ⟨followed.replayed, followed.telling, l.host.perform_of_applyTo_eq, fun c => ?_⟩
  rcases l.host.held_perform c with held | ⟨full, nothing, queue⟩
  · exact Or.inl held
  · rw [room] at full queue
    have one : [Report.clear].take capacity = [.clear] := List.take_of_length_le pos
    exact Or.inr ⟨Nat.le_antisymm (room ▸ followed.fits) full, nothing, queue.trans one⟩

/-- A key and a modifier go down on a queue with room for one report; the second report is lost. -/
theorem replay_queue_eq_held_of_lost_report :
    0 < 1 ∧
      let l := (Link.start 1).run [.call (.register 0x04), .read 1, .call (.addModifiers 0x02),
        .call (.register 0x05)]
      l.host.queue = [.clear] ∧ l.reader ≠ .nothing ∧
        replay l.host.queue l.reader = l.host.held := by
  refine ⟨by decide, by decide, by decide, ?_⟩
  exact (replay_queue_eq_held 1 (by decide) [.call (.register 0x04), .read 1,
    .call (.addModifiers 0x02), .call (.register 0x05)]).1

end TapHold
