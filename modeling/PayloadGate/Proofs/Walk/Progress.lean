import PayloadGate.Proofs.Walk.Steps
import Mathlib.Data.String.Basic

/-! # How a walk gets on

A walk begins a listing again and again, and the place where it begins one may lie before the object that it has just
read. What keeps it from going round in circles is that the places themselves only ever move forward. Nothing is
supposed of the store for this: it may change between two calls, and any call may fail.

* **`Walker.step`** — the step of a walker at an event; **`starts`**, **`sent`** — the places from which it begins its
  listings, and the ids that are taken from it.
* **`AtListing`** — a walker with a cursor in its present listing; **`Onward`** — what a step does to the listing.
* **`pairwise_starts`**, **`nodup_sent`** — places move forward, and no id is taken twice. -/

namespace PayloadGate.Walk

open Walker (isAhead)

/-! ## The steps of a walker -/

namespace Walker

/-- **What happens to a walker**: the store answers, its id is taken, or it is asked to end. -/
inductive Event where
  /-- The store answers for the page that is needed. -/
  | answered (reply : Except Failure ObjectPage)
  /-- The run id that is offered is taken. -/
  | taken
  /-- It is asked to end. -/
  | quit

/-- **The step of a walker at the event `e`**, and `none` when the event is not possible. -/
def step (w : Walker) (e : Event) : Option Walker :=
  match e, w.stage with
  | .answered reply, .listing _ => some (w.receive reply)
  | .taken, .offering _ _ => some w.accepted
  | .quit, .listing _ | .quit, .offering _ _ => some w.quit
  | _, _ => none

/-- The place from which the listing begins that is asked for next, unless one is under way. -/
def begins? (w : Walker) : Option (Option String) :=
  match w.stage with
  | .listing c => if c.token = none then some c.query.start else none
  | _ => none

/-- The id that the event `e` takes from a walker. -/
def takes? (w : Walker) (e : Event) : Option String :=
  match e, w.stage with
  | .taken, .offering id _ => some id
  | _, _ => none

end Walker

variable {w w' : Walker} {c cursor : Cursor} {events : List Walker.Event}

/-- The places from which a walker begins listings behind its present one, as far as `events` are possible. -/
def restarts : List Walker.Event → Walker → List (Option String)
  | [], _ => []
  | e :: events, w => (w.step e).elim [] fun w' => w'.begins?.toList ++ restarts events w'

/-- **The places from which a walker begins its listings**, as far as `events` are possible: that of the present one,
and `restarts`. -/
def starts (events : List Walker.Event) (w : Walker) : List (Option String) :=
  w.begins?.toList ++ restarts events w

/-- **The ids that are taken from a walker**, as far as `events` are possible. -/
def sent : List Walker.Event → Walker → List String
  | [], _ => []
  | e :: events, w => (w.step e).elim [] fun w' => (w.takes? e).toList ++ sent events w'

/-- The listings behind the event `e` are those of the walker `w'` that it makes. -/
theorem starts_cons {e : Walker.Event} (h : w.step e = some w') :
    starts (e :: events) w = w.begins?.toList ++ starts events w' := by
  rw [starts, restarts, h, Option.elim_some, starts]

/-- **What an event does to a walker**: `Moved w e w'`, one constructor for each stage at which it can happen. -/
inductive Moved (w : Walker) : Walker.Event → Walker → Prop where
  /-- It goes through a page, or ends with the failure. -/
  | answered {c : Cursor} (hs : w.stage = .listing c) (reply : Except Failure ObjectPage) :
      Moved w (.answered reply) (w.receive reply)
  /-- It goes on behind the run. -/
  | taken {id : String} {c : Cursor} (hs : w.stage = .offering id c) : Moved w .taken w.accepted
  /-- It ends. -/
  | quit : Moved w .quit (w.finish none)

/-- **The steps of a walker** are of these kinds: `w.step e = some w'` gives `Moved w e w'`. -/
theorem moved_of_step {e : Walker.Event} (h : w.step e = some w') : Moved w e w' := by
  unfold Walker.step at h
  split at h
  · rename_i hs
    obtain rfl := Option.some.inj h
    exact .answered hs _
  · rename_i hs
    obtain rfl := Option.some.inj h
    exact .taken hs
  · rename_i c hs
    obtain rfl := Option.some.inj h
    rw [quit_of_not_hasEnded (by rw [Walker.hasEnded, hs])]
    exact .quit
  · rename_i id c hs
    obtain rfl := Option.some.inj h
    rw [quit_of_not_hasEnded (by rw [Walker.hasEnded, hs])]
    exact .quit
  · exact absurd h (by simp)

/-- The route stays at every event. -/
theorem Moved.route_eq {e : Walker.Event} (h : Moved w e w') (hw : Distinct w) : w'.route = w.route := by
  cases h with
  | answered hs reply =>
    cases reply with
    | error f => rw [receive_error_of_listing hs]; rfl
    | ok page => exact (leads_receive hs page).route_eq
  | taken hs =>
    obtain ⟨-, next, hn⟩ := hw.offered _ _ hs
    exact (leads_accepted hs hn).route_eq
  | quit => rfl

/-! ## Places move forward -/

/-- `isAhead current place` says that `place` comes after the present one, where `none` comes before all places. -/
theorem isAhead_eq_true_iff {current : Option String} {place : String} :
    isAhead current place = true ↔ current < some place := by
  cases current <;> simp [isAhead]

/-- `a < b` and `b < c` give `a < c`, where `none` comes before all places. -/
theorem place_lt_trans {a b c : Option String} (hab : a < b) (hbc : b < c) : a < c := by
  match a, b, c, hab, hbc with
  | none, _, some _, _, _ => exact Option.none_lt_some
  | some _, some _, some _, hab, hbc =>
    exact Option.some_lt_some.2 (lt_trans (Option.some_lt_some.1 hab) (Option.some_lt_some.1 hbc))
  | _, none, _, hab, _ => exact absurd hab Option.not_lt_none
  | _, _, none, _, hbc => exact absurd hbc Option.not_lt_none

/-- No place comes before itself. -/
theorem ne_of_place_lt {a b : Option String} (h : a < b) : a ≠ b := by
  rintro rfl
  cases a with
  | none => exact absurd h Option.not_lt_none
  | some place => exact lt_irrefl _ (Option.some_lt_some.1 h)

/-- **A walker with a cursor in its present listing**, that takes no id twice. -/
structure AtListing (w : Walker) : Prop extends Distinct w where
  /-- The cursor goes through the listing. -/
  query_eq : ∀ c, w.cursor? = some c → c.query = w.route.listing w.offset
  /-- Behind a page that is not the last one there is a token. -/
  token_ne : ∀ id c, w.stage = .offering id c → c.exhausted = false → c.token ≠ none

/-- **What a step does to the listing** of the walker `w`: `w'` goes on with it, or begins one further ahead. -/
inductive Onward (w w' : Walker) : Prop where
  /-- It goes on with it. -/
  | on (offset_eq : w'.offset = w.offset) (begins : w'.begins? = none)
  /-- It begins another one. -/
  | anew {place : Option String} (hlt : w.offset < place) (offset_eq : w'.offset = place)
      (begins : w'.begins? = some place)

/-- A walker that ends begins no listing. -/
theorem Onward.finish (w : Walker) (f : Option Failure) : Onward w (w.finish f) := .on rfl rfl

/-- What a walker comes to goes on with its listing, or begins one further ahead. -/
theorem Leads.onward (h : Leads w cursor w') (htoken : cursor.exhausted = false → cursor.token ≠ none) :
    Onward w w' := by
  cases h with
  | ended => exact .finish w none
  | failed => exact .finish w _
  | page hpage => exact .on rfl (if_neg (htoken hpage))
  | offer => exact .on rfl rfl
  | relist hn hahead => exact .anew (isAhead_eq_true_iff.1 hahead) rfl rfl

/-- What a walker comes to has its cursor in its present listing. -/
theorem Leads.atListing (h : Leads w cursor w') (hw : Distinct w') (hquery : cursor.query = w.route.listing w.offset)
    (htoken : cursor.exhausted = false → cursor.token ≠ none) : AtListing w' := by
  refine ⟨hw, ?_, ?_⟩
  · intro c hc
    cases h <;> simp only [Walker.cursor?, Walker.finish, Walker.relist, Option.some.injEq, reduceCtorEq] at hc
    all_goals (subst hc)
    · exact hquery
    · exact hquery
    · rfl
  · intro id c hs
    cases h with
    | offer rest hn hid =>
      obtain ⟨-, rfl⟩ := Stage.offering.inj hs
      exact htoken
    | _ => exact absurd hs (by simp [Walker.finish, Walker.relist])

/-- Before the first listing there is no page to go on behind. -/
theorem atListing_start (route : Route) (seed : Option String) : AtListing (.start route seed) := by
  refine ⟨distinct_start route seed, fun c hc => ?_, fun id c hs => absurd hs (by simp [Walker.start, Walker.relist])⟩
  obtain rfl := Option.some.inj hc
  rfl

/-- **Each step keeps the cursor in the present listing**, and begins a listing only further ahead. -/
theorem AtListing.of_moved {e : Walker.Event} (h : AtListing w) (hmoved : Moved w e w') :
    AtListing w' ∧ Onward w w' := by
  have hfinish : ∀ f, AtListing (w.finish f) ∧ Onward w (w.finish f) := fun f =>
    ⟨⟨h.toDistinct.finish f, fun c hc => absurd hc (by simp [Walker.cursor?, Walker.finish]),
      fun id c hs => absurd hs (by simp [Walker.finish])⟩, .finish w f⟩
  cases hmoved with
  | @answered c hs reply =>
    cases reply with
    | error f =>
      rw [receive_error_of_listing hs]
      exact hfinish (some f)
    | ok page =>
      have hleads := leads_receive hs page
      have htoken : (c.receive (.ok page)).exhausted = false → (c.receive (.ok page)).token ≠ none := by
        rw [Cursor.exhausted_receive_ok]
        intro hpage hnone
        rw [show page.next = none from hnone] at hpage
        exact absurd hpage (by simp)
      have hquery : (c.receive (.ok page)).query = w.route.listing w.offset :=
        h.query_eq c (by rw [Walker.cursor?, hs])
      exact ⟨hleads.atListing (h.toDistinct.receive hs (.ok page)).1 hquery htoken, hleads.onward htoken⟩
  | @taken id c hs =>
    obtain ⟨-, next, hn⟩ := h.offered id c hs
    have hleads := leads_accepted hs hn
    have hquery : c.query = w.route.listing w.offset := h.query_eq c (by rw [Walker.cursor?, hs])
    refine ⟨hleads.atListing (h.toDistinct.accepted hs).1 hquery (h.token_ne id c hs), ?_⟩
    -- taking the id leaves the listing as it is
    cases hleads.onward (h.token_ne id c hs) with
    | on offset_eq begins => exact .on offset_eq begins
    | anew hlt offset_eq begins => exact .anew hlt offset_eq begins
  | quit => exact hfinish none

/-- **The listings behind the present one begin further and further ahead**, whatever happens: `restarts events w` is
ascending, and all of it lies behind `w.offset`. -/
theorem pairwise_restarts (h : AtListing w) (events : List Walker.Event) :
    (restarts events w).Pairwise (· < ·) ∧ ∀ place ∈ restarts events w, w.offset < place := by
  -- by induction on the events: the place is what all later listings start behind, and a new one raises it
  induction events generalizing w with
  | nil => exact ⟨List.Pairwise.nil, by simp [restarts]⟩
  | cons e events ih =>
    cases hstep : w.step e with
    | none => simp [restarts, hstep]
    | some w' =>
      obtain ⟨hw', honward⟩ := h.of_moved (moved_of_step hstep)
      obtain ⟨hpairwise, hbehind⟩ := ih hw'
      rw [restarts, hstep, Option.elim_some]
      cases honward with
      | on offset_eq begins =>
        rw [begins, Option.toList_none, List.nil_append, ← offset_eq]
        exact ⟨hpairwise, hbehind⟩
      | @anew place hlt offset_eq begins =>
        rw [begins, Option.toList_some, List.singleton_append, List.pairwise_cons, List.forall_mem_cons]
        rw [offset_eq] at hbehind
        exact ⟨⟨hbehind, hpairwise⟩, hlt, fun later hlater => place_lt_trans hlt (hbehind later hlater)⟩

/-- A listing begins at the place of the walker. -/
theorem AtListing.offset_eq_of_begins? (h : AtListing w) {place : Option String} (hbegins : w.begins? = some place) :
    place = w.offset := by
  rw [Walker.begins?] at hbegins
  split at hbegins
  · rename_i c hs
    have hquery := h.query_eq c (by rw [Walker.cursor?, hs])
    split_ifs at hbegins
    rw [← Option.some.inj hbegins, hquery]
    rfl
  · exact absurd hbegins (by simp)

/-- **The listings of a walk begin further and further ahead**, whatever happens: `starts events w` is ascending. -/
theorem pairwise_starts (h : AtListing w) (events : List Walker.Event) : (starts events w).Pairwise (· < ·) := by
  obtain ⟨hpairwise, hbehind⟩ := pairwise_restarts h events
  rw [starts]
  cases hbegins : w.begins? with
  | none => exact hpairwise
  | some place =>
    obtain rfl := h.offset_eq_of_begins? hbegins
    exact List.pairwise_cons.2 ⟨hbehind, hpairwise⟩

/-- **No id is taken twice, and all that are taken have a next one**, whatever happens: `sent events w` has no
duplicates. -/
theorem nodup_sent (h : Distinct w) (events : List Walker.Event) :
    (sent events w).Nodup ∧ ∀ id ∈ sent events w, id ∉ w.emitted ∧ ∃ next, RunId.next id = .ok next := by
  -- by induction on the events: whatever is sent later was not among the ids `emitted` before
  induction events generalizing w with
  | nil => exact ⟨List.nodup_nil, by simp [sent]⟩
  | cons e events ih =>
    cases hstep : w.step e with
    | none => simp [sent, hstep]
    | some w' =>
      rw [sent, hstep, Option.elim_some]
      cases moved_of_step hstep with
      | @answered c hs reply =>
        obtain ⟨hw', hemitted⟩ := h.receive hs reply
        rw [← hemitted]
        exact ih hw'
      | @taken id c hs =>
        obtain ⟨hw', hemitted⟩ := h.accepted hs
        obtain ⟨hnodup, hall⟩ := ih hw'
        rw [hemitted] at hall
        have htakes : w.takes? .taken = some id := by simp only [Walker.takes?, hs]
        rw [htakes, Option.toList_some, List.singleton_append, List.nodup_cons, List.forall_mem_cons]
        exact ⟨⟨fun hmem => (hall id hmem).1 List.mem_cons_self, hnodup⟩, h.offered id c hs,
          fun later hlater => ⟨fun hmem => (hall later hlater).1 (List.mem_cons_of_mem id hmem), (hall later hlater).2⟩⟩
      | quit => exact ih (h.finish none)

end PayloadGate.Walk
