import PayloadGate.Walk.Walker
import Mathlib.Data.List.Nodup

/-! # What a walker can come to

A walker that goes through objects comes to one of five things. **`Leads`** lists them, with what
has to hold for each; what a step of a walker keeps is read off it.

* **`leads_goThrough`** — going through objects leads to one of the five.
* **`receive_of_listing`**, **`accepted_of_offering`** — the two steps of a walker as going through
  objects.
* **`Leads.token_cursor?`** — the cursor stands behind the same page, or before a new listing.
* **`Distinct`** — a walker takes no id twice. -/

namespace PayloadGate.Walk

open Walker (isAhead)

variable {w w' : Walker} {c cursor : Cursor}

/-- **What a walker comes to** that goes through objects, with `cursor` behind them: an end, a page it waits for, or a
run id that it offers. -/
inductive Leads (w : Walker) (cursor : Cursor) : Walker → Prop where
  /-- The end of the listing, behind its last page. -/
  | ended (h : cursor.exhausted = true) : Leads w cursor (w.finish none)
  /-- A run id that has no next one. -/
  | failed {id : String} {f : Failure} (h : RunId.next id = .error f) :
      Leads w cursor (w.finish (some f))
  /-- The need of a further page. -/
  | page (h : cursor.exhausted = false) :
      Leads w cursor { w with stage := .listing { cursor with buffer := [] } }
  /-- A run whose id has not been taken. -/
  | offer {id next : String} (rest : List ObjectRecord) (hn : RunId.next id = .ok next)
      (h : id ∉ w.emitted) :
      Leads w cursor { w with stage := .offering id { cursor with buffer := rest } }
  /-- A place ahead of the offset, from which a new listing starts. -/
  | relist {id next : String} (hn : RunId.next id = .ok next)
      (h : isAhead w.offset (w.route.offset next) = true) :
      Leads w cursor (w.relist (some (w.route.offset next)))

/-- **Going through `objects` leads to one of the five**, whatever they are. -/
theorem leads_goThrough (w : Walker) (cursor : Cursor) (objects : List ObjectRecord) :
    Leads w cursor (w.goThrough cursor objects) := by
  -- by induction on the page: each way to leave the loop is one constructor of `Leads`
  induction objects with
  | nil =>
    rw [Walker.goThrough]
    split
    · rename_i h
      exact .ended h
    · rename_i h
      exact .page (Bool.eq_false_iff.2 h)
  | cons r objects ih =>
    rw [Walker.goThrough]
    split
    · exact ih
    · split
      · rename_i f hn
        exact .failed hn
      · rename_i next hn
        split
        · rename_i ha
          exact .relist hn ha
        · exact ih
    · split
      · rename_i f hn
        exact .failed hn
      · rename_i next hn
        split
        · rename_i hid
          exact .offer objects hn hid
        · split
          · rename_i ha
            exact .relist hn ha
          · exact ih

/-! ## The two steps -/

/-- The walker `w` that has taken `id`. -/
def taking (w : Walker) (id : String) : Walker := { w with emitted := id :: w.emitted }

/-- A walker that waits for a page goes through it, behind what is left in its buffer. -/
theorem receive_of_listing (hs : w.stage = .listing c) (page : ObjectPage) :
    w.receive (.ok page) = w.goThrough (c.receive (.ok page)) (c.buffer ++ page.records) := by
  rw [Walker.receive]
  split
  · rename_i c' hs'
    obtain rfl : c = c' := Stage.listing.inj (hs.symm.trans hs')
    rfl
  · rename_i hne
    exact absurd hs (hne c)

/-- A walker that gets no page ends with the failure `f`. -/
theorem receive_error_of_listing (hs : w.stage = .listing c) (f : Failure) :
    w.receive (.error f) = w.finish (some f) := by
  rw [Walker.receive]
  split
  · rfl
  · rename_i hne
    exact absurd hs (hne c)

/-- A walker whose `id` is taken starts a new listing at `w.route.offset next` when that moves its offset, and goes on
otherwise. -/
theorem accepted_of_offering {id next : String} (hs : w.stage = .offering id c)
    (hn : RunId.next id = .ok next) :
    w.accepted =
      if isAhead w.offset (w.route.offset next) then
        (taking w id).relist (some (w.route.offset next))
      else (taking w id).goThrough c c.buffer := by
  rw [Walker.accepted]
  split
  · rename_i id' c' hs'
    obtain ⟨rfl, rfl⟩ := Stage.offering.inj (hs.symm.trans hs')
    simp only [hn]
    rfl
  · rename_i hne
    exact absurd hs (hne id c)

/-- A walker that has not ended does so on request, without a failure. -/
theorem quit_of_not_hasEnded (h : w.hasEnded = false) : w.quit = w.finish none := by
  rw [Walker.hasEnded] at h
  rw [Walker.quit]
  cases hs : w.stage with
  | listing c => rfl
  | offering id c => rfl
  | ended failure =>
    rw [hs] at h
    exact absurd h (by simp)

/-- **A `page` leads to one of the five.** -/
theorem leads_receive (hs : w.stage = .listing c) (page : ObjectPage) :
    Leads w (c.receive (.ok page)) (w.receive (.ok page)) := by
  rw [receive_of_listing hs]
  exact leads_goThrough w _ _

/-- **A taken `id` leads to one of the five**, for the walker that has taken it. -/
theorem leads_accepted {id next : String} (hs : w.stage = .offering id c)
    (hn : RunId.next id = .ok next) :
    Leads (taking w id) c w.accepted := by
  rw [accepted_of_offering hs hn]
  split
  · rename_i ha
    exact .relist hn ha
  · exact leads_goThrough _ c c.buffer

/-! ## What they keep -/

/-- The cursor of a walker that has not ended. -/
def Walker.cursor? (w : Walker) : Option Cursor :=
  match w.stage with
  | .listing c | .offering _ c => some c
  | .ended _ => none

/-- The route stays on the way. -/
theorem Leads.route_eq (h : Leads w cursor w') : w'.route = w.route := by
  cases h <;> rfl

/-- No id is taken on the way. -/
theorem Leads.emitted_eq (h : Leads w cursor w') : w'.emitted = w.emitted := by
  cases h <;> rfl

/-- **The cursor stands behind the same page**, or before the first page of a new listing: with a token, it has the
token and the query of `cursor`. -/
theorem Leads.token_cursor? (h : Leads w cursor w') (hc : w'.cursor? = some c)
    (ht : c.token ≠ none) :
    c.token = cursor.token ∧ c.query = cursor.query := by
  cases h with
  | ended => exact absurd hc (by simp [Walker.cursor?, Walker.finish])
  | failed => exact absurd hc (by simp [Walker.cursor?, Walker.finish])
  | page =>
    obtain rfl := Option.some.inj hc
    exact ⟨rfl, rfl⟩
  | offer =>
    obtain rfl := Option.some.inj hc
    exact ⟨rfl, rfl⟩
  | relist =>
    obtain rfl := Option.some.inj hc
    exact absurd rfl ht

/-! ## Ids are taken once -/

/-- **No id has been taken twice**, and the one that is offered has not been taken. All of them have a next one. -/
structure Distinct (w : Walker) : Prop where
  /-- The ids that have been taken. -/
  nodup : w.emitted.Nodup
  /-- The ids that have been taken are ids of runs. -/
  valid : ∀ id ∈ w.emitted, ∃ next, RunId.next id = .ok next
  /-- The id that is offered. -/
  offered : ∀ id c, w.stage = .offering id c → id ∉ w.emitted ∧ ∃ next, RunId.next id = .ok next

/-- What a walker comes to that has taken no id twice has taken none twice. -/
theorem Leads.distinct (h : Leads w cursor w') (hw : w.emitted.Nodup)
    (hvalid : ∀ id ∈ w.emitted, ∃ next, RunId.next id = .ok next) : Distinct w' := by
  refine ⟨h.emitted_eq ▸ hw, h.emitted_eq ▸ hvalid, fun id c hs => ?_⟩
  cases h with
  | offer rest hn hid =>
    obtain ⟨rfl, -⟩ := Stage.offering.inj hs
    exact ⟨hid, _, hn⟩
  | _ => exact absurd hs (by simp [Walker.finish, Walker.relist])

/-- At the start no id has been taken. -/
theorem distinct_start (route : Route) (seed : Option String) : Distinct (.start route seed) :=
  ⟨List.nodup_nil, by simp [Walker.start, Walker.relist], fun _ _ hs =>
    absurd hs (by simp [Walker.start, Walker.relist])⟩

/-- A walker that ends takes no more ids. -/
theorem Distinct.finish (h : Distinct w) (f : Option Failure) : Distinct (w.finish f) :=
  ⟨h.nodup, h.valid, fun _ _ hs => absurd hs (by simp [Walker.finish])⟩

/-- An answer of the store keeps the ids that were taken. -/
theorem Distinct.receive (h : Distinct w) (hs : w.stage = .listing c) (reply : Except Failure ObjectPage) :
    Distinct (w.receive reply) ∧ (w.receive reply).emitted = w.emitted := by
  cases reply with
  | error f =>
    rw [receive_error_of_listing hs]
    exact ⟨h.finish _, rfl⟩
  | ok page => exact ⟨(leads_receive hs page).distinct h.nodup h.valid, (leads_receive hs page).emitted_eq⟩

/-- The `id` that is offered is taken, and it is a new one. -/
theorem Distinct.accepted {id : String} (h : Distinct w) (hs : w.stage = .offering id c) :
    Distinct w.accepted ∧ w.accepted.emitted = id :: w.emitted := by
  obtain ⟨hid, next, hn⟩ := h.offered id c hs
  have hleads := leads_accepted hs hn
  have hvalid : ∀ x ∈ id :: w.emitted, ∃ next, RunId.next x = .ok next :=
    List.forall_mem_cons.2 ⟨⟨next, hn⟩, h.valid⟩
  exact ⟨hleads.distinct (List.nodup_cons.2 ⟨hid, h.nodup⟩) hvalid, hleads.emitted_eq⟩

end PayloadGate.Walk
