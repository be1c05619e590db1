import Simo.Support.Transition

/-!
# One-slot mailboxes

A mailbox with one slot keeps the payload that was sent last until it is received, overwritten or
cleared.  Its history is a list of events that record what each operation answered.  `Latest` reads
the content off a history, and `sends` says of every payload what has become of it; a history that
obeys the law of the mailbox is accounted for in this way without a rest.
-/

namespace OneSlot

variable {α : Type*}

/-- An operation on a mailbox together with its answer. -/
inductive Event (α : Type*) where
  /-- A payload is sent; whether the slot was empty. -/
  | send (payload : α) (fresh : Bool)
  /-- The slot is looked at. -/
  | look (seen : Option α)
  | receive (payload : α)
  /-- The slot is cleared; whether there was a payload in it. -/
  | clear (discards : Bool)
deriving DecidableEq, Repr

/-- What an operation answers for a content of the slot, and what it leaves. -/
inductive Law : Option α → Event α → Option α → Prop
  | send (content : Option α) (payload : α) :
      Law content (.send payload content.isNone) (some payload)
  | look (content : Option α) : Law content (.look content) content
  | receive (payload : α) : Law (some payload) (.receive payload) none
  | clear (content : Option α) : Law content (.clear content.isSome) none

/-! ## Reading a history -/

/-- The payload of the latest send that has not been received or cleared. -/
def Latest (events : List (Event α)) (payload : α) : Prop :=
  ∃ earlier fresh later, events = earlier ++ .send payload fresh :: later ∧
    ∀ event ∈ later, ∃ seen, event = .look seen

/-- What becomes of a payload. -/
inductive Fate where
  | received
  /-- Replaced by a send that found the slot filled. -/
  | overwritten
  /-- Cleared. -/
  | discarded
  /-- Still in the slot. -/
  | waiting
  /-- Replaced by a send that found the slot empty. -/
  | lost
deriving DecidableEq, Repr

/-- What becomes of a payload that is in the slot before the events. -/
def fate : List (Event α) → Fate
  | [] => .waiting
  | .look _ :: later => fate later
  | .receive _ :: _ => .received
  | .send _ fresh :: _ => if fresh then .lost else .overwritten
  | .clear discards :: later => if discards then .discarded else fate later

/-- The payloads that are sent, each with what becomes of it. -/
def sends : List (Event α) → List (α × Fate)
  | [] => []
  | .send payload _ :: later => (payload, fate later) :: sends later
  | .look _ :: later | .receive _ :: later | .clear _ :: later => sends later

/-- The payloads that are received. -/
def received : List (Event α) → List α
  | [] => []
  | .receive payload :: later => payload :: received later
  | .look _ :: later | .send _ _ :: later | .clear _ :: later => received later

/-- The payloads of some sends with one fate. -/
def withFate (which : Fate) (sent : List (α × Fate)) : List α :=
  (sent.filter fun entry => entry.2 = which).map Prod.fst

/-- A history that starts with an empty slot tells the answers of all operations and the fate of all
payloads. -/
structure Accounted (events : List (Event α)) (content : Option α) : Prop where
  looks : ∀ earlier seen later, events = earlier ++ .look seen :: later →
    ∀ payload, seen = some payload ↔ Latest earlier payload
  receives : ∀ earlier payload later, events = earlier ++ .receive payload :: later →
    Latest earlier payload
  sends : ∀ earlier payload fresh later, events = earlier ++ .send payload fresh :: later →
    (fresh = true ↔ ∀ other, ¬ Latest earlier other)
  clears : ∀ earlier discards later, events = earlier ++ .clear discards :: later →
    (discards = true ↔ ∃ payload, Latest earlier payload)
  /-- What is received is what is sent, in this order, without the overwritten, the discarded and
  the waiting payloads. -/
  balance : received events = withFate .received (OneSlot.sends events)
  noLoss : ∀ entry ∈ OneSlot.sends events, entry.2 ≠ .lost
  rest : withFate .waiting (OneSlot.sends events) = content.toList
  content : ∀ payload, content = some payload ↔ Latest events payload

/-! ## Histories that obey the law -/

theorem not_latest_nil (payload : α) : ¬ Latest [] payload := by
  rintro ⟨earlier, fresh, later, listed, -⟩
  simp at listed

/-- What one more event does to the latest payload. -/
theorem latest_append {events : List (Event α)} {event : Event α} {payload : α} :
    Latest (events ++ [event]) payload ↔
      (∃ fresh, event = .send payload fresh) ∨
        ((∃ seen, event = .look seen) ∧ Latest events payload) := by
  constructor
  · rintro ⟨earlier, fresh, later, listed, looks⟩
    rcases List.eq_nil_or_concat later with rfl | ⟨front, last, rfl⟩
    · obtain ⟨-, same⟩ := List.append_inj' listed rfl
      exact .inl ⟨fresh, (List.cons.inj same).1⟩
    · rw [List.concat_eq_append] at listed looks
      rw [← List.cons_append, ← List.append_assoc] at listed
      obtain ⟨rfl, same⟩ := List.append_inj' listed rfl
      obtain ⟨rfl, -⟩ := List.cons.inj same
      exact .inr ⟨looks event (by simp), earlier, fresh, front, rfl,
        fun event member => looks event (List.mem_append_left _ member)⟩
  · rintro (⟨fresh, rfl⟩ | ⟨⟨seen, rfl⟩, earlier, fresh, later, rfl, looks⟩)
    · exact ⟨events, fresh, [], rfl, by simp⟩
    · refine ⟨earlier, fresh, later ++ [.look seen], by simp, fun event member => ?_⟩
      rcases List.mem_append.mp member with old | new
      · exact looks event old
      · exact ⟨seen, List.mem_singleton.mp new⟩

/-- One step keeps the content the latest payload. -/
theorem Law.content_iff {before after : Option α} {event : Event α} {events : List (Event α)}
    (law : Law before event after)
    (content : ∀ payload, before = some payload ↔ Latest events payload) (payload : α) :
    after = some payload ↔ Latest (events ++ [event]) payload := by
  rw [latest_append, ← content]
  cases law <;> simp

variable {events : List (Event α)} {steps : List (Transition (Option α) (Event α))}
  {start final : Option α}

theorem content_iff (path : StepPath Law none steps final) (payload : α) :
    final = some payload ↔ Latest (steps.map Transition.label) payload := by
  induction path generalizing payload with
  | nil => exact iff_of_false nofun (not_latest_nil payload)
  | snoc _ last induction =>
      rw [List.map_append]
      exact last.content_iff induction payload

/-- What is in the slot before some events, and what is sent by them. -/
def ahead (content : Option α) (events : List (Event α)) : List (α × Fate) :=
  content.toList.map (fun payload => (payload, fate events)) ++ sends events

/-- Every payload that is in the slot or sent is received in its turn, overwritten, discarded or
left in the slot. -/
theorem balance (path : StepPath Law start steps final) :
    received (steps.map Transition.label) =
        withFate .received (ahead start (steps.map Transition.label)) ∧
      (∀ entry ∈ ahead start (steps.map Transition.label), entry.2 ≠ .lost) ∧
      withFate .waiting (ahead start (steps.map Transition.label)) = final.toList := by
  induction steps generalizing start with
  | nil =>
      obtain rfl := path.nil_eq
      cases start <;> simp [ahead, received, sends, withFate, fate]
  | cons first steps induction =>
      obtain ⟨before, event, after⟩ := first
      obtain ⟨rfl, law, rest⟩ := path.of_cons
      have later := induction rest
      rw [List.map_cons]
      generalize steps.map Transition.label = events at later
      dsimp only at law ⊢
      cases law with
      | send _ payload =>
          cases before with
          | none => simpa [ahead, received, sends] using later
          | some old => simpa [ahead, received, sends, fate, withFate] using later
      | look => simpa [ahead, received, sends, fate] using later
      | receive => simpa [ahead, received, sends, fate, withFate] using later
      | clear =>
          cases before with
          | none => simpa [ahead, received, sends] using later
          | some old => simpa [ahead, received, sends, fate, withFate] using later

/-- The state of the slot before an event of a history that starts with an empty slot. -/
theorem exists_law (path : StepPath Law none steps final) {earlier later : List (Event α)}
    {event : Event α} (listed : steps.map Transition.label = earlier ++ event :: later) :
    ∃ before after, Law before event after ∧
      ∀ payload, before = some payload ↔ Latest earlier payload := by
  induction path generalizing later with
  | nil => simp at listed
  | @snoc steps before after label path last induction =>
      rw [List.map_append] at listed
      rcases List.eq_nil_or_concat later with rfl | ⟨front, final, rfl⟩
      · obtain ⟨rfl, same⟩ := List.append_inj' listed rfl
        obtain ⟨rfl, -⟩ := List.cons.inj same
        exact ⟨before, after, last, content_iff path⟩
      · rw [List.concat_eq_append, ← List.cons_append, ← List.append_assoc] at listed
        exact induction (List.append_inj' listed rfl).1

/-- A history that obeys the law of the mailbox is accounted for. -/
theorem accounted (path : StepPath Law none steps final) :
    Accounted (steps.map Transition.label) final := by
  obtain ⟨balanced, noLoss, rest⟩ := balance path
  refine ⟨fun earlier seen later listed payload => ?_, fun earlier payload later listed => ?_,
    fun earlier payload fresh later listed => ?_, fun earlier discards later listed => ?_,
    balanced, noLoss, rest, content_iff path⟩
  · obtain ⟨before, after, law, latest⟩ := exists_law path listed
    cases law
    exact latest payload
  · obtain ⟨before, after, law, latest⟩ := exists_law path listed
    cases law
    exact (latest payload).mp rfl
  · obtain ⟨before, after, law, latest⟩ := exists_law path listed
    cases law
    simp only [← latest]
    cases before <;> simp
  · obtain ⟨before, after, law, latest⟩ := exists_law path listed
    cases law
    simp only [← latest]
    cases before <;> simp

end OneSlot
