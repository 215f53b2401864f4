import PayloadGate.Proofs.Store.Snapshot
import PayloadGate.Proofs.Text.Keys

/-! # Stores that agree on some objects

Two stores may hold the same objects of some kind and differ in all others. Their listings then agree on that kind, and
when it is all that comes up to a key they begin alike.

* **`Snapshot.filter_listing_eq`** — listings of stores that agree on a kind of objects.
* **`Snapshot.exists_listing_eq`** — listings of stores that agree up to a key.
* **`UpTo`** — the keys of a directory and those before it; **`upTo_of_le`**, **`upTo_of_lt`** — keys that are among
  them.
* **`AgreeUpTo`** — stores that differ only behind a directory. -/

namespace PayloadGate

variable {store store' : Snapshot} {q : ListQuery} {records : List ObjectRecord} {r : ObjectRecord}

/-! ## Listings -/

/-- Lists in ascending order of their keys that hold the same objects are the same. -/
theorem eq_of_ascending {xs ys : List ObjectRecord} (hxs : xs.Pairwise fun a b => a.key < b.key)
    (hys : ys.Pairwise fun a b => a.key < b.key) (h : ∀ r, r ∈ xs ↔ r ∈ ys) : xs = ys := by
  have hnodup : ∀ {zs : List ObjectRecord}, zs.Pairwise (fun a b => a.key < b.key) → zs.Nodup :=
    fun hzs => hzs.imp fun hlt heq => absurd hlt (by rw [heq]; exact lt_irrefl _)
  refine ((List.perm_ext_iff_of_nodup (hnodup hxs) (hnodup hys)).2 h).eq_of_pairwise ?_ hxs hys
  exact fun a b _ _ hab hba => absurd hab (lt_asymm hba)

/-- **Stores that agree on a `kind` of objects** list the same ones of the kind, for any query. -/
theorem Snapshot.filter_listing_eq {kind : ObjectRecord → Bool}
    (h : ∀ r, kind r = true → (r ∈ store.records ↔ r ∈ store'.records)) (q : ListQuery) :
    (store.listing q).filter kind = (store'.listing q).filter kind := by
  refine eq_of_ascending ((store.ascending_listing q).filter _) ((store'.ascending_listing q).filter _) fun r => ?_
  rw [List.mem_filter, List.mem_filter, Snapshot.mem_listing, Snapshot.mem_listing]
  constructor
  · rintro ⟨⟨hr, hq⟩, hk⟩
    exact ⟨⟨(h r hk).1 hr, hq⟩, hk⟩
  · rintro ⟨⟨hr, hq⟩, hk⟩
    exact ⟨⟨(h r hk).2 hr, hq⟩, hk⟩

/-- In ascending order the objects with `r.key ≤ key` come before the others, and together they are all. -/
theorem filter_le_append_filter_lt (h : records.Pairwise fun a b => a.key < b.key) (key : String) :
    (records.filter fun r => decide (r.key ≤ key)) ++ (records.filter fun r => decide (key < r.key)) = records := by
  induction records with
  | nil => rfl
  | cons r rest ih =>
    obtain ⟨hr, hrest⟩ := List.pairwise_cons.1 h
    by_cases hle : r.key ≤ key
    · have hlt : ¬ key < r.key := not_lt.2 hle
      simp only [List.filter_cons, hle, hlt, decide_true, decide_false, if_true, Bool.false_eq_true, if_false,
        List.cons_append, ih hrest]
    · -- no object behind comes up to the key either
      have hnone : rest.filter (fun r => decide (r.key ≤ key)) = [] := by
        rw [List.filter_eq_nil_iff]
        intro x hx hxle
        exact hle ((hr x hx).le.trans (of_decide_eq_true hxle))
      have hall : rest.filter (fun r => decide (key < r.key)) = rest := by
        have hsplit := ih hrest
        rwa [hnone, List.nil_append] at hsplit
      have hlt : key < r.key := not_le.1 hle
      simp only [List.filter_cons, hle, hlt, decide_true, decide_false, if_true, Bool.false_eq_true, if_false,
        hnone, hall, List.nil_append]

/-- The objects of an ascending list `before ++ r :: after` up to the key of `r` are `before ++ [r]`. -/
theorem filter_le_of_ascending {before after : List ObjectRecord}
    (h : (before ++ r :: after).Pairwise fun a b => a.key < b.key) :
    (before ++ r :: after).filter (fun x => decide (x.key ≤ r.key)) = before ++ [r] := by
  obtain ⟨-, hafter, hbefore⟩ := List.pairwise_append.1 h
  have hnone : after.filter (fun x => decide (x.key ≤ r.key)) = [] := by
    rw [List.filter_eq_nil_iff]
    intro x hx hle
    exact absurd (List.rel_of_pairwise_cons hafter hx) (not_lt.2 (of_decide_eq_true hle))
  have hall : before.filter (fun x => decide (x.key ≤ r.key)) = before :=
    List.filter_eq_self.2 fun x hx => decide_eq_true (hbefore x hx r List.mem_cons_self).le
  simp only [List.filter_append, List.filter_cons, le_refl, decide_true, if_true, hnone, hall]

/-- **Stores that agree up to the key of `r`** list the same objects up to it; only `after` may be others. -/
theorem Snapshot.exists_listing_eq {before after : List ObjectRecord}
    (hlisting : store.listing q = before ++ r :: after)
    (h : ∀ x : ObjectRecord, x.key ≤ r.key → (x ∈ store.records ↔ x ∈ store'.records)) :
    ∃ after', store'.listing q = before ++ r :: after' := by
  have hasc := store.ascending_listing q
  rw [hlisting] at hasc
  have hsame : (store.listing q).filter (fun x => decide (x.key ≤ r.key))
      = (store'.listing q).filter fun x => decide (x.key ≤ r.key) :=
    Snapshot.filter_listing_eq (fun x hx => h x (of_decide_eq_true hx)) q
  rw [hlisting, filter_le_of_ascending hasc] at hsame
  refine ⟨(store'.listing q).filter fun x => decide (r.key < x.key), ?_⟩
  rw [← List.singleton_append, ← List.append_assoc, hsame]
  exact (filter_le_append_filter_lt (store'.ascending_listing q) r.key).symm

/-! ## Keys up to a directory -/

/-- **The keys of a directory and those before it.** The text of a `directory` ends with a slash, so that it is a prefix
of its keys alone. -/
def UpTo (directory key : String) : Prop := directory.toList <+: key.toList ∨ key < directory

namespace Text

/-- A text between `start` and `start ++ b` begins with `start` as well. -/
theorem prefix_of_not_lt {start a b : List Char} (ha : ¬ a < start) (hb : ¬ start ++ b < a) : start <+: a := by
  induction start generalizing a with
  | nil => exact List.nil_prefix
  | cons c cs ih =>
    cases a with
    | nil => exact absurd (List.nil_lt_cons c cs) ha
    | cons d ds =>
      rw [List.cons_lt_cons_iff, not_or, not_and] at ha
      rw [List.cons_append, List.cons_lt_cons_iff, not_or, not_and] at hb
      obtain rfl : c = d := le_antisymm (not_lt.1 ha.1) (not_lt.1 hb.1)
      exact (List.prefix_cons_inj c).2 (ih (ha.2 rfl) (hb.2 rfl))

/-- The order of two directories with different names is that of all that they hold: what stands behind the slashes does
not matter. -/
theorem append_slash_lt_of_lt {a b x y : List Char} (ha : '/' ∉ a) (hb : '/' ∉ b) (hne : a ≠ b)
    (h : a ++ '/' :: x < b ++ '/' :: y) (x' y' : List Char) : a ++ '/' :: x' < b ++ '/' :: y' := by
  -- the names differ before either one ends, as neither has a slash, so what stands behind them decides nothing
  induction a generalizing b with
  | nil =>
    cases b with
    | nil => exact absurd rfl hne
    | cons d ds =>
      rw [List.nil_append, List.cons_append, List.cons_lt_cons_iff] at h ⊢
      exact h.imp_right fun heq => absurd (heq.1 ▸ List.mem_cons_self) hb
  | cons c cs ih =>
    cases b with
    | nil =>
      rw [List.nil_append, List.cons_append, List.cons_lt_cons_iff] at h ⊢
      exact h.imp_right fun heq => absurd (heq.1 ▸ List.mem_cons_self) ha
    | cons d ds =>
      rw [List.cons_append, List.cons_append, List.cons_lt_cons_iff] at h ⊢
      rw [List.mem_cons, not_or] at ha hb
      exact h.imp_right fun heq => ⟨heq.1, ih ha.2 hb.2 (fun hds => hne (by rw [heq.1, hds])) heq.2⟩

end Text

/-- A key that is at most one of the directory is up to the directory. -/
theorem upTo_of_le {directory key name : String} (h : key ≤ directory ++ name) : UpTo directory key := by
  by_cases hlt : key < directory
  · exact .inr hlt
  · refine .inl (Text.prefix_of_not_lt (fun hl => hlt (String.lt_iff_toList_lt.2 hl)) (b := name.toList) fun hl => ?_)
    rw [← String.toList_append] at hl
    exact not_lt.2 h (String.lt_iff_toList_lt.2 hl)

/-- **All keys of a run directory before another one** are up to the other one: from `r.key < y.key` for one object of
each. -/
theorem upTo_of_lt {root i j a b : String} {y : ObjectRecord} (hi : Walk.splitKey? root r.key = some (i, a))
    (hj : Walk.splitKey? root y.key = some (j, b)) (hlt : r.key < y.key) {key : String}
    (hkey : (root ++ "/" ++ i ++ "/").toList <+: key.toList) : UpTo (root ++ "/" ++ j ++ "/") key := by
  by_cases hne : i = j
  · subst hne
    exact .inl hkey
  · obtain ⟨rest, hrest⟩ := hkey
    obtain ⟨hri, hislash⟩ := Walk.splitKey?_eq_some_iff.1 hi
    obtain ⟨hyj, hjslash⟩ := Walk.splitKey?_eq_some_iff.1 hj
    rw [String.lt_iff_toList_lt, hri, hyj, Text.append_left_lt_iff, List.cons_lt_cons_iff] at hlt
    have hlist : i.toList ≠ j.toList := fun heq => hne (String.toList_inj.1 heq)
    have hall := Text.append_slash_lt_of_lt hislash hjslash hlist (by simpa using hlt) rest []
    refine .inr (String.lt_iff_toList_lt.2 ?_)
    rw [← hrest]
    simp only [String.toList_append, List.append_assoc]
    rw [Text.append_left_lt_iff]
    simpa using hall

/-- **Stores that agree up to a `directory`**: they hold the same objects there, with the same content. Behind it they
may hold anything. -/
structure AgreeUpTo (directory : String) (store store' : Snapshot) : Prop where
  /-- The objects. -/
  records : ∀ r : ObjectRecord, UpTo directory r.key → (r ∈ store.records ↔ r ∈ store'.records)
  /-- What they hold. -/
  content : ∀ key : String, UpTo directory key → store.content key = store'.content key

end PayloadGate
