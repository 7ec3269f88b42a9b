import MessageU.Server.Sequential

/-!
# A request among other requests

While a request runs, the other connections change the tables between its calls, and a call may
fail. `Shows` lets the database answer every call from whatever tables the others have left, or not
at all, and keeps what it has shown, so that `Interaction.Ensures` with `Shows` quantifies over
everything that can happen around one request.

`ensures_next` unfolds one stage of a request. `ensures_progress` is the induction over its stages:
what every stage hands on to the next one holds of the answer.
-/

set_option autoImplicit false
set_option relaxedAutoImplicit false

namespace MessageU.Server

open Library

/-- What the database has shown to a request: the tables at its calls so far, the latest first, and
whether a call has failed. -/
structure Shown where
  contents : List Tables
  failed : Bool

/-- What the database has shown before the first call. -/
def Shown.nothing : Shown where
  contents := []
  failed := false

/-- The tables at one more call. -/
def Shown.tables (shown : Shown) (tables : Tables) : Shown :=
  { shown with contents := tables :: shown.contents }

/-- A failure. -/
def Shown.failure (shown : Shown) : Shown :=
  { shown with failed := true }

/-- A call shows what the tables hold, which the other connections may have changed since the call
before, or fails. -/
inductive Shows (limit : Option ℕ) (shown : Shown) (call : DbCall) :
    Except PyError call.Result → Shown → Prop
  | answered (tables : Tables) :
    Shows limit shown call (call.exec limit tables).2 (shown.tables tables)
  | failed (exception : PyError) : Shows limit shown call (.error exception) shown.failure

section Handlers

variable {limit : Option ℕ} {request : Bytes} {ambient : Ambient}
  {post : Except PyError Bytes → Shown → Prop}

/-- A failed call is answered with the general error. -/
theorem resume_error (stage : Stage) (exception : PyError) :
    stage.resume request ambient (.error exception) = .answer errorResponse := by
  cases stage <;> rfl

/-- A stage goes on as its call comes out on some tables, or ends in the general error. -/
theorem ensures_next {stage : Stage} {shown : Shown}
    (hfailed : post (.ok errorResponse) shown.failure)
    (htables : ∀ tables, Interaction.Ensures (Shows limit) post
      ((stage.resume request ambient
        ((stage.call request ambient).exec limit tables).2).rest request
        ambient) (shown.tables tables)) :
    Interaction.Ensures (Shows limit) post ((Progress.next stage).rest request ambient) shown := by
  rw [Progress.rest, Stage.rest_eq]
  intro answer after hshows
  cases hshows with
  | answered tables => exact htables tables
  | failed exception =>
    change Interaction.Ensures _ _
      ((stage.resume request ambient (.error exception)).rest request ambient) _
    rw [resume_error]
    exact hfailed

/-- A stage goes on with what its call shows of some tables. -/
theorem ensures_tables {stage : Stage} {shown : Shown}
    (h : Interaction.Ensures (Shows limit) post ((Progress.next stage).rest request ambient) shown)
    (tables : Tables) :
    Interaction.Ensures (Shows limit) post
      ((stage.resume request ambient
        ((stage.call request ambient).exec limit tables).2).rest request
        ambient) (shown.tables tables) := by
  rw [Progress.rest, Stage.rest_eq] at h
  exact h _ _ (.answered tables)

/-- What the stages of a request hand on holds of its answer. Assumes: it is handed on by every
call, whatever it shows, and is enough for an answer. -/
theorem ensures_progress {fits : Progress → Shown → Prop}
    (hanswer : ∀ response shown, fits (.answer response) shown → post (.ok response) shown)
    (hfailed : ∀ stage shown, fits (.next stage) shown →
      fits (.answer errorResponse) shown.failure)
    (hcall : ∀ stage shown tables, fits (.next stage) shown →
      fits (stage.resume request ambient ((stage.call request ambient).exec limit tables).2)
        (shown.tables tables))
    (progress : Progress) (shown : Shown) (h : fits progress shown) :
    Interaction.Ensures (Shows limit) post (progress.rest request ambient) shown := by
  induction hrank : progress.rank using Nat.strong_induction_on generalizing progress shown with
  | _ rank ih =>
    cases progress with
    | answer response => exact hanswer response shown h
    | next stage =>
      refine ensures_next (hanswer _ _ (hfailed stage shown h)) fun tables ↦ ?_
      have hlt := resume_rank_lt request ambient stage
        ((stage.call request ambient).exec limit tables).2
      change stage.rank = rank at hrank
      exact ih _ (hrank ▸ hlt) _ _ (hcall stage shown tables h) rfl

end Handlers

end MessageU.Server
