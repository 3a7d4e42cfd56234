import CoreEngines.Proofs.Mailbox.Reaching
import CoreEngines.Proofs.Mailbox.Upkeep

/-!
A shared mailbox and one that stands alone.  The second is served with a request at once when this
request reaches the queue of the first.  Until then the section of the request has come so far as
it says, and when it has reached the queue, the two are the same.
-/

namespace CoreEngines.Mailbox

def Request.empties : Request → Bool
  | drain | drainLocked => true
  | _ => false

def serving (mailbox : Mailbox) (request : Option Request) : Mailbox :=
  request.elim mailbox fun request => request.serve mailbox

/-- How a section that has come so far leaves the mailbox, as the one tells that stands alone. -/
def Hold.Agrees (request : Option Request) (mailbox alone : Mailbox) (visits : List Visit) :
    Hold → Prop
  | away => True
  | settled => mailbox = alone
  | measured length => mailbox = alone ∧ length = alone.queue.size ∧ visits = []
  | grown length => { mailbox with queued := length } = alone.serving request ∧
      request.any Request.empties = false
  | declined => { mailbox with dropped := mailbox.dropped + 1 } = alone.serving request ∧
      request.any Request.empties = false
  | emptied =>
      { mailbox with slots := Slots.replenished mailbox.reserve, queued := 0 } =
          alone.serving request ∧
        visits = drained alone.queue
  | restocked => { mailbox with queued := 0 } = alone.serving request ∧
      visits = drained alone.queue

/-- Those who read without the lock see what they would see of the one that stands alone. -/
structure ReadsAlike (mailbox alone : Mailbox) : Prop where
  queued : mailbox.queued = alone.queued
  dropped : mailbox.dropped = alone.dropped

theorem ReadsAlike.refl (mailbox : Mailbox) : mailbox.ReadsAlike mailbox :=
  ⟨rfl, rfl⟩

section
variable {request : Option Request} {alone : Mailbox}

theorem serving_of_empties (hempties : request.any Request.empties) :
    alone.serving request = if alone.queue.size = 0 then alone else
      { alone with queue := #[], slots := Slots.replenished alone.reserve, queued := 0 } := by
  cases request with
  | none => cases hempties
  | some request =>
      cases request with
      | drain => rfl
      | drainLocked => rfl
      | _ => cases hempties

theorem empties_of_allotted {access : Access} (hallots : allotted request access)
    (haccess : access.looks ∨ access = .detach) : request.any Request.empties := by
  cases request with
  | none => cases access <;> simp_all [allotted, Access.looks]
  | some request =>
      cases request with
      | drain => rfl
      | drainLocked => rfl
      | _ => cases access <;> simp_all [allotted, Access.looks, Request.allots]

theorem eq_push_of_allotted {message : Message} (hallots : allotted request (.append message)) :
    request = some (.push message) := by
  cases request with
  | none => cases hallots
  | some request => cases request <;> simp_all [allotted, Request.allots]

theorem eq_offer_of_allotted {message : Message} (hallots : allotted request (.offer message)) :
    request = some (.offer message) := by
  cases request with
  | none => cases hallots
  | some request => cases request <;> simp_all [allotted, Request.allots]

theorem serving_of_looks {access : Access} (hallots : allotted request access)
    (hlooks : access.looks) (hempty : alone.queue.size = 0) : alone.serving request = alone := by
  rw [serving_of_empties (empties_of_allotted hallots (Or.inl hlooks)), if_pos hempty]

theorem serving_of_peek {mailbox : Mailbox} (hreadsAlike : mailbox.ReadsAlike alone)
    (horderly : alone.Orderly) (hallots : allotted request .peek) :
    (if Access.peek.reaches mailbox.queued then alone.serving request else alone) = alone := by
  split
  case isTrue hfound =>
    apply serving_of_looks hallots rfl
    rw [← horderly.published, ← hreadsAlike.queued]
    exact beq_iff_eq.mp hfound
  case isFalse => rfl

theorem aloneWith_append {reserve : Nat} {requests : List Request} {reaches : Bool} :
    aloneWith reserve (requests ++ if reaches then request.toList else []) =
      if reaches then (aloneWith reserve requests).serving request
      else aloneWith reserve requests := by
  cases reaches with
  | false => simp
  | true => cases request <;> simp [aloneWith, serving]

end

/-- What one access makes of the mailbox, as the one tells that stands alone. -/
structure Keeps (request : Option Request) (mailbox alone : Mailbox) (hold : Hold)
    (visits : List Visit) : Prop where
  agrees : hold.Agrees request mailbox alone visits
  readsAlike : mailbox.ReadsAlike alone

variable {request : Option Request} {mailbox alone : Mailbox} {visits : List Visit}

/-- An access of a request that has its place in its section. -/
theorem Hold.Agrees.access {hold hold' : Hold} {access : Access}
    (hagrees : hold.Agrees request mailbox alone visits) (hreadsAlike : mailbox.ReadsAlike alone)
    (horderly : alone.Orderly) (hallots : allotted request access)
    (hlooks : access.looks → visits = [])
    (haccess : hold.access? access (mailbox.access access).1 = some hold') :
    Keeps request (mailbox.access access).2
      (if access.reaches (mailbox.access access).1 then alone.serving request else alone) hold'
      (visits ++ (access.visit? (mailbox.access access).1).toList) := by
  -- Whoever lets the others see what the request has done leaves the two mailboxes the same.
  have hserved : ∀ {later : Mailbox}, later = alone.serving request →
      Keeps request later (alone.serving request) .settled visits :=
    fun hsame => ⟨hsame, hsame ▸ .refl _⟩
  generalize hmade : mailbox.access access = made at haccess ⊢
  obtain ⟨answer, later⟩ := made
  have hmakes : hold.Makes access answer hold' := makes_of_access? haccess
  cases hmakes with
  | peek hold queued =>
      cases hmade
      simp only [Access.visit?, Option.toList_none, List.append_nil]
      rw [serving_of_peek hreadsAlike horderly hallots]
      exact ⟨hagrees, hreadsAlike⟩
  | length length =>
      cases hmade
      obtain rfl : mailbox = alone := hagrees
      have hkeeps : Keeps request mailbox mailbox (.measured mailbox.queue.size) visits :=
        ⟨⟨rfl, rfl, hlooks rfl⟩, .refl mailbox⟩
      simp only [Access.visit?, Option.toList_none, List.append_nil]
      split
      case isTrue hfound => rwa [serving_of_looks hallots rfl (beq_iff_eq.mp hfound)]
      case isFalse => exact hkeeps
  | slots slots =>
      cases hmade
      exact ⟨hagrees, hreadsAlike⟩
  | append message length =>
      cases hmade
      obtain rfl : mailbox = alone := hagrees
      obtain rfl := eq_push_of_allotted hallots
      exact ⟨⟨rfl, rfl⟩, ⟨rfl, rfl⟩⟩
  | offer message length =>
      obtain rfl := eq_offer_of_allotted hallots
      obtain rfl : mailbox = alone := hagrees
      simp only [Mailbox.access] at hmade
      split at hmade
      case isTrue hfree =>
        cases hmade
        exact ⟨⟨(if_pos hfree).symm, rfl⟩, ⟨rfl, rfl⟩⟩
      case isFalse => cases hmade
  | decline message =>
      obtain rfl := eq_offer_of_allotted hallots
      obtain rfl : mailbox = alone := hagrees
      simp only [Mailbox.access] at hmade
      split at hmade
      case isTrue => cases hmade
      case isFalse hfull =>
        cases hmade
        exact ⟨⟨(if_neg hfull).symm, rfl⟩, ⟨rfl, rfl⟩⟩
  | publish length =>
      cases hmade
      simp only [Access.visit?, Option.toList_none, List.append_nil]
      exact hserved hagrees.1
  | clear =>
      cases hmade
      simp only [Access.visit?, Option.toList_none, List.append_nil]
      exact hserved hagrees.1
  | discard =>
      cases hmade
      simp only [Access.visit?, Option.toList_none, List.append_nil]
      exact hserved hagrees.1
  | detach messages hlength =>
      cases hmade
      obtain ⟨rfl, rfl, rfl⟩ := hagrees
      have hempties := empties_of_allotted hallots (Or.inr rfl)
      have hqueue : mailbox.queue ≠ #[] := fun hempty => hlength (by rw [hempty]; rfl)
      refine ⟨⟨?_, ?_⟩, ⟨rfl, rfl⟩⟩
      · exact ((serving_of_empties hempties).trans (if_neg hlength)).symm
      · simp [Access.visit?, drained, Access.reaches, hqueue]
  | replenish =>
      simp only [Mailbox.access] at hmade
      split at hmade <;> cases hmade
      simp only [Access.visit?, Option.toList_none, List.append_nil]
      exact ⟨hagrees, ⟨hreadsAlike.queued, hreadsAlike.dropped⟩⟩

/-- Whoever takes messages out has taken those that the one held that stands alone, when its
request reaches the queue. -/
theorem Hold.Agrees.takes {hold hold' : Hold} {access : Access}
    (hagrees : hold.Agrees request mailbox alone visits) (hreadsAlike : mailbox.ReadsAlike alone)
    (horderly : alone.Orderly) (hempties : request.any Request.empties)
    (hlooks : access.looks → visits = [])
    (haccess : hold.access? access (mailbox.access access).1 = some hold')
    (hreaches : access.reaches (mailbox.access access).1) : visits = drained alone.queue := by
  have hnone : alone.queue.size = 0 → drained alone.queue = [] := fun hempty =>
    if_pos (Array.eq_empty_of_size_eq_zero hempty)
  generalize hmade : mailbox.access access = made at haccess hreaches
  obtain ⟨answer, later⟩ := made
  have hmakes : hold.Makes access answer hold' := makes_of_access? haccess
  cases hmakes with
  | peek hold queued =>
      cases hmade
      rw [hlooks rfl, hnone]
      rw [← horderly.published, ← hreadsAlike.queued]
      exact beq_iff_eq.mp hreaches
  | length length =>
      cases hmade
      obtain rfl : mailbox = alone := hagrees
      rw [hlooks rfl, hnone (beq_iff_eq.mp hreaches)]
  | publish length => exact absurd hempties (Bool.eq_false_iff.mp hagrees.2)
  | discard => exact absurd hempties (Bool.eq_false_iff.mp hagrees.2)
  | clear => exact hagrees.2
  | _ => cases hreaches

end CoreEngines.Mailbox
