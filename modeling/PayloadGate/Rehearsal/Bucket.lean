import PayloadGate.Store.Pages
import PayloadGate.Store.Remote

/-! # A service with one bucket

A **`BucketService`** holds the objects of one bucket and can be told to refuse requests. **`BucketService.bucket`** is
what it makes of a request for a bucket by its name. -/

namespace PayloadGate.Rehearsal

/-- An object of a bucket. -/
structure StoredObject where
  /-- The key. -/
  key : String
  /-- When it was changed, if a listing tells. -/
  modified : Option Time.Instant
  /-- The content. -/
  content : List UInt8

/-- **A service with one bucket.** -/
structure BucketService where
  /-- The name of the bucket. -/
  name : String
  /-- The objects. -/
  objects : List StoredObject
  /-- How many objects a page holds. -/
  pageSize : Nat
  /-- Whether every page begins with an entry without a key. -/
  nameless : Bool
  /-- Whether the check of the bucket is refused. -/
  refusesCheck : Bool
  /-- Whether listings are refused. -/
  refusesLists : Bool
  /-- Whether contents are refused. -/
  refusesContents : Bool
  /-- Whether contents break off. -/
  breaksContents : Bool

namespace BucketService

/-- The reason of every refusal. -/
def refusal : String := "access denied"

/-- The objects in key order, as pages list them. -/
def ordered (s : BucketService) : List StoredObject := inKeyOrder (·.key) s.objects

/-- The answer to a request for a page. A token counts instead of the key behind which the listing starts: the page
begins behind `r.token.or r.after`. -/
def page (s : BucketService) (r : PageRequest) : PageReply :=
  let matching := s.ordered.filter fun o => r.under.toList.isPrefixOf o.key.toList
  let (objects, next) := firstPage (·.key) (max 1 s.pageSize) (behind (·.key) (r.token.or r.after) matching)
  let entries := objects.map fun o => ⟨some o.key, o.modified⟩
  ⟨if s.nameless then ⟨none, none⟩ :: entries else entries, next⟩

/-- The answer to a request for a content. -/
def content (s : BucketService) (key : String) : ContentReply :=
  if s.refusesContents then .refused refusal
  else match s.ordered.find? (·.key == key) with
    | none => .missing
    | some o => if s.breaksContents then .broken "connection closed" else .content o.content

/-- **The bucket of a name**: the replies of the service as a `RemoteBucket`, of which `access` refuses every other name
than `s.name`. -/
def bucket (s : BucketService) (name : String) : RemoteBucket where
  name := name
  access :=
    if s.refusesCheck then .error refusal
    else if name = s.name then .ok ()
    else .error "no such bucket"
  page r := if s.refusesLists then .error refusal else .ok (s.page r)
  content := s.content

end BucketService

end PayloadGate.Rehearsal
