import PayloadGate.Proofs.Store.Exchange
import PayloadGate.Proofs.Store.Steady

/-! # Going on after a failure

A cursor gives its token away before it calls for a page, and has none when the call fails. Whoever asks again then
goes through the listing from its beginning.

* **`unfailing`**, **`Falters`** — a store that does not change, without failures and with them.
* **`Attempts`** — what is exchanged when each failure breaks an attempt off and the next one begins anew;
  **`Cursor.Ahead.exists_attempts`** — this is what is exchanged with a store that may fail.
* **`yielded`**, **`NoneBetween`** — the objects that a caller gets, and when no failure comes between two of them.
* **`Restarts`**, **`restarts_of_falters`** — how far a caller that goes on after failures is served as without them.
* **`exists_yielded_twice`** — a failure behind which an object is yielded a second time. -/

namespace PayloadGate

open Exchange

section Falters

variable {σ : Type} {ask : ListQuery → Option String → σ → Except Failure ObjectPage × σ}
  {page : Option String → ObjectPage} {q : ListQuery} {token : Option String} {pages : List ObjectPage}
  {records : List ObjectRecord} {c : Cursor} {s : σ} {most n : Nat} {f g : Failure} {r : ObjectRecord}
  {whole ahead told spoken before behind : List Exchange}

/-! ## Stores that may fail -/

/-- **A store that does not change and never fails**: each token has its `page`, whatever was asked before. -/
def unfailing (page : Option String → ObjectPage) (_ : ListQuery) (token : Option String) (s : Unit) :
    Except Failure ObjectPage × Unit :=
  (.ok (page token), s)

/-- It answers with the page of the token. -/
theorem unfailing_eq {first : ObjectPage} (h : page token = first) : unfailing page q token () = (.ok first, ()) := by
  rw [unfailing, h]

/-- **A store that may fail**, at any call, and answers all other calls with the `page` of their token. Its own state
`s` decides which calls fail. -/
def Falters (ask : ListQuery → Option String → σ → Except Failure ObjectPage × σ) (q : ListQuery)
    (page : Option String → ObjectPage) : Prop :=
  ∀ token s, (ask q token s).1 = .ok (page token) ∨ ∃ f, (ask q token s).1 = .error f

/-! ## Attempts -/

/-- **What is exchanged in attempts.** A failure at a call breaks an attempt off, and the next one begins anew with the
`whole` listing ahead. -/
inductive Attempts (q : ListQuery) (whole : List Exchange) : List Exchange → Nat → List Exchange → Prop where
  /-- The last attempt goes on as long as the caller asks. -/
  | last (ahead : List Exchange) (n : Nat) : Attempts q whole ahead n (during ahead n)
  /-- An attempt ends with a call that fails. -/
  | broken (front : List Exchange) (token : Option String) (back : List Exchange) (f : Failure) {n : Nat}
      {told : List Exchange} (h : Attempts q whole whole n told) :
      Attempts q whole (front ++ .call q token :: back) ((answers front).length + 1 + n)
        (front ++ .call q token :: .answer (.error f) :: told)

/-- When `spoken` has no answer, a caller that asks once more hears it before the rest: `during` goes over it. -/
theorem Exchange.during_append (h : answers spoken = []) (ahead : List Exchange) (n : Nat) :
    during (spoken ++ ahead) (n + 1) = spoken ++ during ahead (n + 1) := by
  induction spoken with
  | nil => rfl
  | cons x spoken ih =>
    cases x with
    | call q token => rw [List.cons_append, during, ih h, List.cons_append]
    | answer reply => exact absurd h (by simp [answers])

/-- An object that is answered stands before the rest of its attempt. -/
theorem Attempts.object (h : Attempts q whole ahead n told) (hspoken : answers spoken = []) (r : ObjectRecord) :
    Attempts q whole (spoken ++ .object r :: ahead) (n + 1) (spoken ++ .object r :: told) := by
  cases h with
  | last =>
    have hone : .object r :: during ahead n = during (.object r :: ahead) (n + 1) := rfl
    rw [hone, ← during_append hspoken]
    exact .last _ (n + 1)
  | @broken front token back f n told h =>
    have hfront : (answers (spoken ++ .object r :: front)).length = (answers front).length + 1 := by
      rw [answers_append, hspoken, List.nil_append, Exchange.object, answers, List.length_cons]
    have hbroken := Attempts.broken (spoken ++ .object r :: front) token back f h
    rw [hfront, List.append_assoc, List.append_assoc] at hbroken
    rwa [show (answers front).length + 1 + n + 1 = (answers front).length + 1 + 1 + n by omega]

namespace Cursor

/-- **After a failure the cursor is where it began**, `.start c.query`: buffer and token are gone. -/
theorem receive_error_of_page (h : c.look = .page) (f : Failure) : c.receive (.error f) = .start c.query := by
  rcases c with ⟨query, buffer, token, exhausted⟩
  cases buffer with
  | cons r rest => simp [look] at h
  | nil =>
    cases exhausted with
    | true => simp [look] at h
    | false => rfl

/-- A cursor keeps to its listing: `rest.query = c.query`. -/
theorem query_eq_of_look_record {rest : Cursor} (h : c.look = .record r rest) : rest.query = c.query := by
  rcases c with ⟨query, buffer, token, exhausted⟩
  cases buffer with
  | nil => cases exhausted <;> simp [look] at h
  | cons x buffer =>
    obtain ⟨-, rfl⟩ := Look.record.inj h
    rfl

/-- **One call** to a store that may fail is answered as without failures, or with a failure, and then the cursor is
where it began. -/
theorem Ahead.next?_cases (h : c.Ahead (unfailing page) () ahead) (hask : Falters ask q page) (hquery : c.query = q)
    (hmost : (calls ahead).length ≤ most) (s : σ) (told : List Exchange) :
    (∃ c' s', c.next? (overheard ask) most (s, told) = some (.ok none, c', s', told ++ ahead) ∧ answers ahead = []
        ∧ c'.Ahead (unfailing page) () [] ∧ c'.query = q)
      ∨ (∃ spoken r rest c' s', ahead = spoken ++ .object r :: rest ∧ answers spoken = []
        ∧ c.next? (overheard ask) most (s, told) = some (.ok (some r), c', s', told ++ spoken)
        ∧ c'.Ahead (unfailing page) () rest ∧ c'.query = q)
      ∨ ∃ front token back f s', ahead = front ++ .call q token :: back ∧ answers front = []
        ∧ c.next? (overheard ask) most (s, told)
          = some (.error f, .start q, s', told ++ (front ++ [.call q token])) := by
  generalize hunit : () = u at h
  induction h generalizing most s told with
  | @ended c u h =>
    refine .inl ⟨c, s, ?_, rfl, .ended h, hquery⟩
    rw [List.append_nil]
    exact next?_of_ended h most _
  | @record c rest u r ahead h hrest _ =>
    refine .inr (.inl ⟨[], r, ahead, rest, s, rfl, rfl, ?_, hrest, ?_⟩)
    · rw [List.append_nil]
      exact next?_of_record h most _
    · rw [query_eq_of_look_record h, hquery]
  | @page c u u' first ahead h hpage hmore ih =>
    cases most with
    | zero => exact absurd hmost (by simp [calls])
    | succ most =>
      have hfewer : (calls ahead).length ≤ most := Nat.le_of_succ_le_succ hmost
      obtain ⟨hfirst, rfl⟩ : page c.token = first ∧ u = u' := by simpa [unfailing] using hpage
      rcases hreply : ask q c.token s with ⟨reply, s'⟩
      have hnext := @next?_succ_of_page _ (overheard ask) c h most (s, told)
      rw [hquery, overheard, hreply] at hnext
      rw [hquery]
      rcases hask c.token s with hok | ⟨f, hf⟩
      · -- the call is answered with the page, and the rest is as if it had been fetched before
        rw [hreply, hfirst] at hok
        obtain rfl : reply = .ok first := hok
        rcases ih hquery hfewer s' (told ++ [.call q c.token]) rfl with
          ⟨c', s'', hcall, hanswers, hahead, hquery'⟩
            | ⟨spoken, r, rest, c', s'', rfl, hanswers, hcall, hahead, hquery'⟩
            | ⟨front, token, back, f, s'', rfl, hanswers, hcall⟩
        · exact .inl ⟨c', s'', by simpa using hnext.trans hcall, hanswers, hahead, hquery'⟩
        · exact .inr (.inl ⟨.call q c.token :: spoken, r, rest, c', s'', rfl, hanswers,
            by simpa using hnext.trans hcall, hahead, hquery'⟩)
        · exact .inr (.inr ⟨.call q c.token :: front, token, back, f, s'', rfl, hanswers,
            by simpa using hnext.trans hcall⟩)
      · rw [hreply] at hf
        obtain rfl : reply = .error f := hf
        refine .inr (.inr ⟨[], c.token, ahead, f, s', rfl, rfl, ?_⟩)
        simpa [receive_error_of_page h, hquery] using hnext

/-- **Many calls** to a store that may fail are all answered, and what is exchanged are `Attempts`. By induction on
their number `n`. -/
theorem Ahead.exists_attempts (hwhole : (Cursor.start q).Ahead (unfailing page) () whole) (hask : Falters ask q page)
    (hcalls : (calls whole).length ≤ most) (n : Nat) (h : c.Ahead (unfailing page) () ahead) (hquery : c.query = q)
    (hmost : (calls ahead).length ≤ most) (s : σ) (told : List Exchange) :
    ∃ c' s' spoken, c.nextTimes? ask most n (s, told) = some (c', s', told ++ spoken)
      ∧ Attempts q whole ahead n spoken := by
  induction n generalizing c ahead s told with
  | zero =>
    refine ⟨c, s, [], by rw [List.append_nil, nextTimes?], ?_⟩
    rw [← during_zero ahead]
    exact .last ahead 0
  | succ n ih =>
    rcases h.next?_cases hask hquery hmost s told with
      ⟨c', s', hcall, hanswers, hahead, hquery'⟩ | ⟨spoken, r, rest, c', s', rfl, hanswers, hcall, hahead, hquery'⟩
        | ⟨front, token, back, f, s', rfl, hanswers, hcall⟩
    · -- behind the end nothing is called for, so that nothing can fail
      obtain ⟨c'', s'', later, hlater, hattempts⟩ :=
        ih hahead hquery' (Nat.zero_le _) s' (told ++ ahead ++ [.answer (.ok none)])
      generalize hnil : ([] : List Exchange) = left at hattempts
      cases hattempts with
      | broken front => exact absurd hnil (by simp)
      | last =>
        subst hnil
        refine ⟨c'', s'', ahead ++ during [] (n + 1), ?_, ?_⟩
        · have hone : during [] (n + 1) = .answer (.ok none) :: during [] n := rfl
          rw [nextTimes?, hcall, hone]
          simpa using hlater
        · rw [← during_append hanswers, List.append_nil]
          exact .last ahead (n + 1)
    · have hrest : (calls rest).length ≤ most := by
        rw [calls_append, List.length_append] at hmost
        exact le_trans (Nat.le_add_left _ _) hmost
      obtain ⟨c'', s'', later, hlater, hattempts⟩ :=
        ih hahead hquery' hrest s' (told ++ spoken ++ [.answer (.ok (some r))])
      refine ⟨c'', s'', spoken ++ .object r :: later, ?_, hattempts.object hanswers r⟩
      rw [nextTimes?, hcall]
      simpa [object] using hlater
    · obtain ⟨c'', s'', later, hlater, hattempts⟩ :=
        ih hwhole rfl hcalls s' (told ++ (front ++ [.call q token]) ++ [.answer (.error f)])
      refine ⟨c'', s'', front ++ .call q token :: .answer (.error f) :: later, ?_, ?_⟩
      · rw [nextTimes?, hcall]
        simpa using hlater
      · have hbroken := Attempts.broken front token back f hattempts
        rwa [hanswers, List.length_nil, Nat.zero_add, Nat.add_comm 1 n] at hbroken

end Cursor

/-! ## What the caller gets -/

/-- **The objects that are answered**, in their order; failures and the end yield none. -/
def yielded (told : List Exchange) : List ObjectRecord := (answers told).filterMap fun reply => reply.toOption.join

/-- **No failure comes between two objects** that are answered: before each failure nothing has been yielded, or behind
it nothing is. -/
def NoneBetween (told : List Exchange) : Prop :=
  ∀ before f behind, told = before ++ .answer (.error f) :: behind → yielded before = [] ∨ yielded behind = []

/-- What lies ahead when nothing fails: calls, and objects that are answered. -/
def Sound (ahead : List Exchange) : Prop := ∀ reply, .answer reply ∈ ahead → ∃ r, reply = .ok (some r)

/-- Objects are yielded one after the other: `yielded` goes over `++`. -/
@[simp] theorem yielded_append (told told' : List Exchange) :
    yielded (told ++ told') = yielded told ++ yielded told' := by
  rw [yielded, answers_append, List.filterMap_append, yielded, yielded]

/-- A call that fails yields nothing. -/
@[simp] theorem yielded_call_error (q : ListQuery) (token : Option String) (f : Failure) (told : List Exchange) :
    yielded (.call q token :: .answer (.error f) :: told) = yielded told := rfl

/-- A failure yields nothing. -/
@[simp] theorem yielded_error (f : Failure) (told : List Exchange) :
    yielded (.answer (.error f) :: told) = yielded told := rfl

/-- The `answers` are the exchanges that are answers. -/
theorem mem_answers_iff {reply : Except Failure (Option ObjectRecord)} :
    reply ∈ answers told ↔ .answer reply ∈ told := by
  induction told with
  | nil => simp [answers]
  | cons x told ih => cases x <;> simp [answers, ih]

/-- Along pages calls are made, and objects are answered: `exchanges` are `Sound`. -/
theorem sound_exchanges (q : ListQuery) (token : Option String) (pages : List ObjectPage) :
    Sound (exchanges q token pages) := by
  intro reply hreply
  rw [← mem_answers_iff, answers_exchanges, List.mem_map] at hreply
  obtain ⟨r, -, rfl⟩ := hreply
  exact ⟨r, rfl⟩

/-- Along pages their objects are yielded, one page after the other. -/
theorem yielded_exchanges (q : ListQuery) (token : Option String) (pages : List ObjectPage) :
    yielded (exchanges q token pages) = pages.flatMap (·.records) := by
  rw [yielded, answers_exchanges, List.filterMap_map]
  exact List.filterMap_some

/-- What a caller gets of what lies ahead is its beginning, `<+:`. -/
theorem prefix_yielded_during (ahead : List Exchange) (n : Nat) : yielded (during ahead n) <+: yielded ahead := by
  have hend : ∀ k, (List.replicate k (Except.ok none)).filterMap
      (fun reply : Except Failure (Option ObjectRecord) => reply.toOption.join) = [] := fun k => by
    rw [List.filterMap_replicate]
    rfl
  rw [yielded, answers_during, List.filterMap_append, hend, List.append_nil]
  exact (List.take_prefix _ _).filterMap _

/-- A caller that has been told of the end has got all that lay ahead. -/
theorem yielded_during_of_ended (hahead : Sound ahead) (h : .answer (.ok none) ∈ during ahead n) :
    yielded (during ahead n) = yielded ahead := by
  rw [← mem_answers_iff, answers_during, List.mem_append] at h
  rcases h with h | h
  · obtain ⟨r, hr⟩ := hahead _ (mem_answers_iff.1 (List.mem_of_mem_take h))
    exact absurd hr (by simp)
  · have hmore : (answers ahead).length ≤ n := by
      by_contra hless
      rw [Nat.sub_eq_zero_of_le (by omega)] at h
      exact absurd h List.not_mem_nil
    rw [yielded, answers_during, List.take_of_length_le hmore, List.filterMap_append, List.filterMap_replicate]
    exact List.append_nil _

/-- As long as nothing fails no failure is answered. -/
theorem error_notMem_during (hahead : Sound ahead) (n : Nat) (f : Failure) :
    .answer (.error f) ∉ during ahead n := by
  rw [← mem_answers_iff, answers_during, List.mem_append, not_or]
  refine ⟨fun h => ?_, fun h => ?_⟩
  · obtain ⟨r, hr⟩ := hahead _ (mem_answers_iff.1 (List.mem_of_mem_take h))
    exact absurd hr (by simp)
  · exact absurd (List.eq_of_mem_replicate h) (by simp)

/-- When `front` has no failure, a failure of `front ++ .answer (.error f) :: later` is this first one, or comes behind
it. -/
theorem eq_of_append_error_eq {front later : List Exchange} (hfront : ∀ f, .answer (.error f) ∉ front)
    (h : front ++ .answer (.error f) :: later = before ++ .answer (.error g) :: behind) :
    (before = front ∧ behind = later)
      ∨ ∃ between, before = front ++ .answer (.error f) :: between
        ∧ later = between ++ .answer (.error g) :: behind := by
  -- `front` holds no failure, so the one of the other side is that behind `front`, or it comes later
  rcases List.append_eq_append_iff.1 h with ⟨left, rfl, hleft⟩ | ⟨left, rfl, hleft⟩
  · cases left with
    | nil =>
      obtain ⟨-, rfl⟩ := List.cons.inj hleft
      exact .inl ⟨List.append_nil _, rfl⟩
    | cons x between =>
      obtain ⟨rfl, rfl⟩ := List.cons.inj hleft
      exact .inr ⟨between, rfl, rfl⟩
  · cases left with
    | nil =>
      obtain ⟨-, rfl⟩ := List.cons.inj hleft
      exact .inl ⟨(List.append_nil _).symm, rfl⟩
    | cons x between =>
      obtain ⟨rfl, -⟩ := List.cons.inj hleft
      exact absurd (List.mem_append_right _ List.mem_cons_self) (hfront g)

namespace Attempts

/-- The front of a sound attempt up to a call has no failure in it. -/
theorem error_notMem_front {front back : List Exchange} (h : Sound (front ++ .call q token :: back)) (f : Failure) :
    .answer (.error f) ∉ front ++ [.call q token] := by
  intro hmem
  have hfront : .answer (.error f) ∈ front ++ .call q token :: back := by
    rw [← List.singleton_append, ← List.append_assoc]
    exact List.mem_append_left back hmem
  obtain ⟨r, hr⟩ := h _ hfront
  exact absurd hr (by simp)

/-- **Behind a failure are `Attempts` from the beginning**, with the `whole` listing ahead, and before it is the call
that failed. -/
theorem behind_error (h : Attempts q whole ahead n told) (hwhole : Sound whole) (hahead : Sound ahead)
    (htold : told = before ++ .answer (.error g) :: behind) :
    (∃ earlier token, before = earlier ++ [.call q token]) ∧ ∃ k, Attempts q whole whole k behind := by
  induction h generalizing before with
  | last ahead n =>
    exact absurd (htold ▸ List.mem_append_right before List.mem_cons_self) (error_notMem_during hahead n g)
  | @broken front token back f n told h ih =>
    have hsplit : front ++ [.call q token] ++ .answer (.error f) :: told = before ++ .answer (.error g) :: behind := by
      simpa using htold
    rcases eq_of_append_error_eq (error_notMem_front hahead) hsplit with ⟨rfl, rfl⟩ | ⟨between, rfl, rfl⟩
    · exact ⟨⟨front, token, rfl⟩, n, h⟩
    · obtain ⟨⟨earlier, token', rfl⟩, hbehind⟩ := ih hwhole rfl
      exact ⟨⟨front ++ [.call q token] ++ .answer (.error f) :: earlier, token', by simp⟩, hbehind⟩

/-- Without a failure there is one attempt: `told = during ahead n`. -/
theorem eq_during (h : Attempts q whole ahead n told) (hnone : ∀ f, .answer (.error f) ∉ told) :
    told = during ahead n := by
  cases h with
  | last => rfl
  | @broken front token back f n told h => exact absurd (by simp) (hnone f)

/-- A beginning that is not empty begins alike. -/
theorem eq_nil_or_head?_eq {xs ys : List ObjectRecord} (h : xs <+: ys) : xs = [] ∨ xs.head? = ys.head? := by
  obtain ⟨rest, rfl⟩ := h
  cases xs with
  | nil => exact .inl rfl
  | cons r xs => exact .inr rfl

/-- **The first object** that is yielded is the first one of the attempt under way, or the first one of a whole
attempt. -/
theorem head?_yielded (h : Attempts q whole ahead n told) :
    yielded told = [] ∨ (yielded told).head? = (yielded ahead).head?
      ∨ (yielded told).head? = (yielded whole).head? := by
  induction h with
  | last ahead n => exact (eq_nil_or_head?_eq (prefix_yielded_during ahead n)).imp_right .inl
  | @broken front token back f n told h ih =>
    rw [yielded_append, yielded_append, yielded_call_error]
    cases hfront : yielded front with
    | nil =>
      rw [List.nil_append]
      exact ih.imp_right fun hhead => .inr (hhead.elim id id)
    | cons r rest => exact .inr (.inl rfl)

/-- **When no failure comes between two objects**, those that are yielded are the beginning of one attempt. -/
theorem yielded_prefix (h : Attempts q whole ahead n told) (hbetween : NoneBetween told) :
    yielded told <+: yielded ahead ∨ yielded told <+: yielded whole := by
  -- by induction on the attempts: what a broken one yielded is gone before the next one, or nothing comes behind it
  induction h with
  | last ahead n => exact .inl (prefix_yielded_during ahead n)
  | @broken front token back f n told h ih =>
    have hlater : NoneBetween told := by
      rintro before g behind rfl
      have hsplit := hbetween (front ++ .call q token :: .answer (.error f) :: before) g behind (by simp)
      rw [yielded_append, List.append_eq_nil_iff, yielded_call_error] at hsplit
      exact hsplit.imp_left (·.2)
    have hfirst := hbetween (front ++ [.call q token]) f told (by simp)
    rw [yielded_append] at hfirst
    rw [yielded_append, yielded_append, yielded_call_error]
    rcases hfirst with hfirst | hfirst
    · rw [(List.append_eq_nil_iff.1 hfirst).1, List.nil_append]
      exact .inr ((ih hlater).elim id id)
    · rw [hfirst, List.append_nil]
      exact .inl (List.prefix_append _ _)

/-- **A caller that has been told of the end** has got all objects of an attempt last: they are the end of what it was
yielded. -/
theorem suffix_yielded (h : Attempts q whole ahead n told) (hwhole : Sound whole) (hahead : Sound ahead)
    (hended : .answer (.ok none) ∈ told) : yielded ahead <:+ yielded told ∨ yielded whole <:+ yielded told := by
  induction h with
  | last ahead n =>
    rw [yielded_during_of_ended hahead hended]
    exact .inl (List.suffix_refl _)
  | @broken front token back f n told h ih =>
    rw [List.mem_append, List.mem_cons, List.mem_cons] at hended
    -- the end is told in the last attempt, as `ahead` is sound and holds records and calls only
    have hlater : .answer (.ok none) ∈ told := by
      rcases hended with hfront | hcall | herror | hlater
      · obtain ⟨r, hr⟩ := hahead _ (List.mem_append_left _ hfront)
        exact absurd hr (by simp)
      · exact absurd hcall (by simp)
      · exact absurd herror (by simp)
      · exact hlater
    refine .inr (((ih hwhole hlater).elim id id).trans ?_)
    rw [yielded_append, yielded_call_error]
    exact List.suffix_append _ _

end Attempts

/-! ## Going on -/

/-- **How far a caller that goes on after failures is served as without them**: exactly as long as no failure comes
between two objects. -/
structure Restarts (q : ListQuery) (pages : List ObjectPage) (records : List ObjectRecord) (n : Nat)
    (told : List Exchange) : Prop where
  /-- What is exchanged are attempts to go along the pages from the beginning. -/
  attempts : Attempts q (exchanges q none pages) (exchanges q none pages) n told
  /-- A failure is told when the call for a page has failed, and whoever asks again has the first page called for. -/
  again : ∀ before f behind, told = before ++ .answer (.error f) :: behind →
    (∃ earlier token, before = earlier ++ [.call q token]) ∧ (behind = [] ∨ ∃ later, behind = .call q none :: later)
  /-- This is the page that failed exactly when it was the first one. -/
  same_iff : ∀ before token f next behind,
    told = before ++ .call q token :: .answer (.error f) :: next :: behind → (next = .call q token ↔ token = none)
  /-- Behind the last failure, what is exchanged is the conversation along all pages. -/
  anew : ∀ before f behind, told = before ++ .answer (.error f) :: behind → (∀ g, .answer (.error g) ∉ behind) →
    ∃ m, Conversation q pages m behind
  /-- The objects are in ascending order exactly when no failure comes between two of them. -/
  ascending_iff : ((yielded told).Pairwise fun a b => a.key < b.key) ↔ NoneBetween told
  /-- In the same case they are the beginning of the listing. -/
  prefix_iff : yielded told <+: records ↔ NoneBetween told
  /-- In the same case they are all objects of the listing, each once, when the caller has been told of the end. -/
  all_iff : .answer (.ok none) ∈ told → (yielded told = records ↔ NoneBetween told)

/-- A caller that asks along pages has the first one called for, by the call without a token. -/
theorem Attempts.head_eq {first : ObjectPage}
    (h : Attempts q whole (exchanges q none (first :: pages)) n told) :
    told = [] ∨ ∃ later, told = .call q none :: later := by
  rw [exchanges] at h
  generalize hrest : first.records.map .object ++ exchanges q first.next pages = rest at h
  generalize hahead : .call q none :: rest = ahead at h
  cases h with
  | last _ n =>
    subst hahead
    cases n with
    | zero => exact .inl rfl
    | succ n => exact .inr ⟨_, rfl⟩
  | broken front =>
    cases front with
    | nil =>
      obtain ⟨hcall, -⟩ := List.cons.inj hahead
      obtain ⟨-, rfl⟩ := Exchange.call.inj hcall
      exact .inr ⟨_, rfl⟩
    | cons x front =>
      obtain ⟨rfl, -⟩ := List.cons.inj hahead
      exact .inr ⟨_, rfl⟩

/-- What is exchanged in attempts is served as without failures exactly when no failure comes between two objects. A
failure behind an object brings the first object again, and `records` has it once. -/
theorem restarts_of_attempts (hpaging : Paging pages records) (hrecords : records.Pairwise fun a b => a.key < b.key)
    (h : Attempts q (exchanges q none pages) (exchanges q none pages) n told) : Restarts q pages records n told := by
  have hsound := sound_exchanges q none pages
  have hwhole : yielded (exchanges q none pages) = records := by rw [yielded_exchanges, hpaging.records_eq]
  have hhead : ∀ {n told}, Attempts q (exchanges q none pages) (exchanges q none pages) n told →
      yielded told = [] ∨ (yielded told).head? = records.head? := fun h =>
    hwhole ▸ h.head?_yielded.imp_right (·.elim id id)
  have hfront : NoneBetween told → yielded told <+: records := fun hbetween =>
    hwhole ▸ (h.yielded_prefix hbetween).elim id id
  have hascending : yielded told <+: records → (yielded told).Pairwise fun a b => a.key < b.key := fun hstart =>
    hrecords.sublist hstart.sublist
  have hbetween : ((yielded told).Pairwise fun a b => a.key < b.key) → NoneBetween told := by
    intro hpairwise before f behind htold
    obtain ⟨-, k, hbehind⟩ := h.behind_error hsound hsound htold
    -- otherwise the first object is yielded on both sides of the failure
    by_contra hboth
    rw [not_or] at hboth
    obtain ⟨r, rest, hbefore⟩ := List.exists_cons_of_ne_nil hboth.1
    obtain ⟨r', rest', hafter⟩ := List.exists_cons_of_ne_nil hboth.2
    have hsplit : yielded told = r :: (rest ++ r' :: rest') := by
      rw [htold, yielded_append, yielded_error, hbefore, hafter, List.cons_append]
    have hfirst : records.head? = some r := by
      rw [← (hhead h).resolve_left (by simp [hsplit]), hsplit, List.head?_cons]
    have hagain : records.head? = some r' := by
      rw [← (hhead hbehind).resolve_left hboth.2, hafter, List.head?_cons]
    obtain rfl : r = r' := Option.some.inj (hfirst.symm.trans hagain)
    rw [hsplit, List.pairwise_cons] at hpairwise
    exact absurd (hpairwise.1 r (by simp)) (lt_irrefl _)
  have hagain : ∀ before f behind, told = before ++ .answer (.error f) :: behind →
      (∃ earlier token, before = earlier ++ [.call q token])
        ∧ (behind = [] ∨ ∃ later, behind = .call q none :: later) := by
    intro before f behind htold
    obtain ⟨hbefore, k, hbehind⟩ := h.behind_error hsound hsound htold
    refine ⟨hbefore, ?_⟩
    cases pages with
    | nil => exact absurd hpaging Paging.not_nil
    | cons first pages => exact hbehind.head_eq
  refine ⟨h, hagain, fun before token f next behind htold => ?_, fun before f behind htold hnone => ?_,
    ⟨hbetween, fun hnone => hascending (hfront hnone)⟩, ⟨fun hstart => hbetween (hascending hstart), hfront⟩,
    fun hended => ⟨fun hall => hbetween (hall ▸ hrecords), fun hnone => ?_⟩⟩
  · obtain ⟨-, hnone | ⟨later, hlater⟩⟩ := hagain (before ++ [.call q token]) f (next :: behind) (by simpa using htold)
    · exact absurd hnone (by simp)
    · obtain ⟨rfl, -⟩ := List.cons.inj hlater
      simpa using eq_comm
  · obtain ⟨-, k, hbehind⟩ := h.behind_error hsound hsound htold
    refine ⟨k, ?_⟩
    rw [hbehind.eq_during hnone]
    exact conversation_during q pages k
  · have hsuffix : records <:+ yielded told := hwhole ▸ (h.suffix_yielded hsound hsound hended).elim id id
    exact (hfront hnone).eq_of_length_le hsuffix.length_le

/-- **Going through a listing of a store that may fail.** However often a caller asks, it is answered, and served as
without failures exactly when no failure comes between two objects that it gets. -/
theorem restarts_of_falters {store : Snapshot} (hask : Falters ask q page) (hpaging : Paging pages (store.listing q))
    (hpages : Delivers (unfailing page) q none () pages) (hmost : pages.length ≤ most) (n : Nat) (s : σ) :
    ∃ c s' told, (Cursor.start q).nextTimes? ask most n (s, []) = some (c, s', told)
      ∧ Restarts q pages (store.listing q) n told := by
  have hahead := ahead_of_delivers (c := .start q) rfl rfl hpaging hpages
  have hcalls : (calls (exchanges q none pages)).length ≤ most := by
    rw [calls_exchanges]
    simpa using hmost
  obtain ⟨c, s', told, htold, hattempts⟩ := hahead.exists_attempts hask hcalls n hahead rfl hcalls s []
  exact ⟨c, s', told, htold, restarts_of_attempts hpaging (store.ascending_listing q) hattempts⟩

end Falters

/-! ## Stores in memory -/

namespace MemoryStore

variable {m : MemoryStore} {q : ListQuery}

/-- The page of a token in a store in memory whose objects are there from the start. -/
def pageFor (m : MemoryStore) (q : ListQuery) (token : Option String) : ObjectPage :=
  if m.leadEmpty && token.isNone then ⟨[], some ""⟩ else m.pageBehind q token

/-- The same store without failures. -/
def unfailing (m : MemoryStore) : MemoryStore := { m with failingCalls := [] }

/-- A store in memory whose objects are there from the start does not change, apart from its failures. -/
theorem steady_unfailing (h : ∀ o ∈ m.objects, o.availableFrom = 0) : m.unfailing.Steady := ⟨rfl, h⟩

/-- **A store in memory whose objects are there from the start** answers each call with the page of its token, unless
the call is one of `failingCalls`. -/
theorem page_eq_of_available (h : ∀ o ∈ m.objects, o.availableFrom = 0) (clock calls : Nat) (q : ListQuery)
    (token : Option String) : m.page clock calls q token
      = if calls ∈ m.failingCalls then .error (.storage "listing unavailable") else .ok (m.pageFor q token) := by
  rw [page, pageFor]
  split_ifs with hfails hlead
  · rfl
  · rfl
  · have hexisting : m.existing clock = m.existing 0 := (steady_unfailing h).existing_eq clock
    rw [hexisting]
    rfl

/-- It is a store that may fail, `Falters`. -/
theorem falters (h : ∀ o ∈ m.objects, o.availableFrom = 0) (q : ListQuery) :
    Falters m.toStore.askPage q (m.pageFor q) := by
  intro token v
  show m.page _ _ q token = _ ∨ ∃ f, m.page _ _ q token = _
  rw [page_eq_of_available h]
  split_ifs with hfails
  · exact .inr ⟨_, rfl⟩
  · exact .inl rfl

/-- When the objects stand in ascending order, the pages are cut from them as they stand. -/
theorem pageFor_eq_of_pairwise (h : ∀ o ∈ m.objects, o.availableFrom = 0)
    (hobjects : m.objects.Pairwise fun a b => a.record.key < b.record.key) (q : ListQuery) (token : Option String) :
    m.pageFor q token = if m.leadEmpty && token.isNone then ⟨[], some ""⟩
      else pageOf (max 1 m.pageSize) ((m.objects.map (·.record)).filter fun r => q.admits r.key) token := by
  have hrecords : m.snapshot.records = m.objects.map (·.record) := (steady_unfailing h).records_snapshot hobjects
  rw [pageFor, pageBehind, Snapshot.listing, hrecords]

end MemoryStore

/-! ### Failures between the objects of a listing -/

/-- Three objects on two pages, behind an empty page. The first call for a page fails, and so does the one for the last
page on the second attempt. -/
def brokenTwice : MemoryStore where
  objects := [⟨⟨"logs/1", ⟨10, 0⟩⟩, [], 0⟩, ⟨⟨"logs/2", ⟨20, 0⟩⟩, [], 0⟩, ⟨⟨"logs/3", ⟨30, 0⟩⟩, [], 0⟩]
  pageSize := 2
  leadEmpty := true
  failingCalls := [0, 3]
  failingKeys := []
  latency := 7

/-- The pages of `brokenTwice`: an empty one, one with two objects, and one with the third. -/
def brokenTwicePages : List ObjectPage :=
  [⟨[], some ""⟩, ⟨[⟨"logs/1", ⟨10, 0⟩⟩, ⟨"logs/2", ⟨20, 0⟩⟩], some "logs/2"⟩, ⟨[⟨"logs/3", ⟨30, 0⟩⟩], none⟩]

/-- The objects of `brokenTwice` are there from the start. -/
theorem available_brokenTwice : ∀ o ∈ brokenTwice.objects, o.availableFrom = 0 := by decide

/-- The objects of `brokenTwice` stand in ascending order. -/
theorem pairwise_brokenTwice : brokenTwice.objects.Pairwise fun a b => a.record.key < b.record.key := by decide +kernel

/-- What `brokenTwice` answers for a page: a failure at the calls `0` and `3`, and else an empty page or one of two
objects. -/
theorem askPage_brokenTwice : brokenTwice.toStore.askPage = fun q token v =>
    (if v.calls ∈ [0, 3] then .error (.storage "listing unavailable")
      else .ok (if token.isNone then ⟨[], some ""⟩
        else pageOf 2 ((brokenTwice.objects.map (·.record)).filter fun r => q.admits r.key) token),
      ({ v with clock := v.clock + 7 }).notePage q token) := by
  funext q token v
  have hpage := MemoryStore.page_eq_of_available available_brokenTwice (v.clock + 7) v.calls q token
  rw [MemoryStore.pageFor_eq_of_pairwise available_brokenTwice pairwise_brokenTwice] at hpage
  exact congrArg (·, ({ v with clock := v.clock + 7 }).notePage q token) hpage

/-- Nine times the next object is asked for of `brokenTwice`; the failure between two objects brings the first ones
again. -/
theorem restarts_of_falters_brokenTwice :
    Falters brokenTwice.toStore.askPage (.allUnder "logs/") (brokenTwice.pageFor (.allUnder "logs/"))
      ∧ Paging brokenTwicePages (brokenTwice.snapshot.listing (.allUnder "logs/"))
      ∧ Delivers (unfailing (brokenTwice.pageFor (.allUnder "logs/"))) (.allUnder "logs/") none () brokenTwicePages
      ∧ brokenTwicePages.length ≤ 3
      ∧ ∃ c v told, (Cursor.start (.allUnder "logs/")).nextTimes? brokenTwice.toStore.askPage 3 9 (.start, [])
          = some (c, v, told)
        ∧ Restarts (.allUnder "logs/") brokenTwicePages (brokenTwice.snapshot.listing (.allUnder "logs/")) 9 told := by
  have hfalters := MemoryStore.falters available_brokenTwice (.allUnder "logs/")
  have hpage := MemoryStore.pageFor_eq_of_pairwise available_brokenTwice pairwise_brokenTwice (.allUnder "logs/")
  have hlisting : brokenTwice.snapshot.listing (.allUnder "logs/") = brokenTwicePages.flatMap (·.records) := by
    have hrecords : brokenTwice.snapshot.records = brokenTwice.objects.map (·.record) :=
      (MemoryStore.steady_unfailing available_brokenTwice).records_snapshot pairwise_brokenTwice
    rw [Snapshot.listing, hrecords]
    decide +kernel
  have hpaging : Paging brokenTwicePages (brokenTwice.snapshot.listing (.allUnder "logs/")) := by
    rw [hlisting]
    exact .more _ "" (.more _ "logs/2" (.last _))
  have hpages : Delivers (unfailing (brokenTwice.pageFor (.allUnder "logs/"))) (.allUnder "logs/") none ()
      brokenTwicePages := by
    refine ⟨(), unfailing_eq ?_, (), unfailing_eq ?_, (), unfailing_eq ?_, trivial⟩
    -- the three pages of this store, one after the other
    all_goals
      rw [hpage]
      decide +kernel
  exact ⟨hfalters, hpaging, hpages, le_rfl, restarts_of_falters hfalters hpaging hpages le_rfl 9 .start⟩

/-- **Two objects are yielded a second time** behind the second failure, and only then the one that was missing. -/
theorem exists_yielded_twice :
    ∃ c v told, (Cursor.start (.allUnder "logs/")).nextTimes? brokenTwice.toStore.askPage 3 9 (.start, [])
        = some (c, v, told)
      ∧ (yielded told).map (·.key) = ["logs/1", "logs/2", "logs/1", "logs/2", "logs/3"]
      ∧ ¬ (yielded told).Pairwise fun a b => a.key < b.key := by
  have hrun : ((Cursor.start (.allUnder "logs/")).nextTimes? brokenTwice.toStore.askPage 3 9 (.start, [])).map
      (fun x => (yielded x.2.2).map (·.key)) = some ["logs/1", "logs/2", "logs/1", "logs/2", "logs/3"] := by
    rw [askPage_brokenTwice]
    decide +kernel
  obtain ⟨⟨c, v, told⟩, htold, hyielded⟩ := Option.map_eq_some_iff.1 hrun
  refine ⟨c, v, told, htold, hyielded, fun hpairwise => ?_⟩
  have hkeys : ((yielded told).map (·.key)).Pairwise (· < ·) := List.pairwise_map.2 hpairwise
  rw [show (yielded told).map (·.key) = _ from hyielded] at hkeys
  exact absurd hkeys (by decide +kernel)

end PayloadGate
