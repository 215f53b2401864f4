import PayloadGate.Store.ObjectStore

/-! # A store behind a service

A **`RemoteBucket`** answers requests for pages and for contents in its own terms. **`RemoteBucket.toStore`** is the
store that its callers meet. The service has no inclusive start and no end of a listing: a listing starts behind a key,
and its end is found among the entries.

* **`PageRequest`**, **`PageReply`** — a request for a page, and what the service says to it.
* **`ContentReply`** — what it says to a request for the content of an object.
* **`readPage`**, **`readContent`** — what a caller makes of the replies. -/

namespace PayloadGate

/-- **A request for a page**: the prefix, and what the page comes behind, the key `after` or the `token` of the page
before. -/
structure PageRequest where
  /-- All keys start with this text. -/
  under : String
  /-- The listing starts behind this key. -/
  after : Option String
  /-- The token of the page, when it is not the first one. -/
  token : Option String
  deriving DecidableEq, Repr

/-- An entry of a page. -/
structure ListedEntry where
  /-- The key; an entry without one counts for nothing. -/
  key : Option String
  /-- When the object was changed. -/
  modified : Option Time.Instant
  deriving DecidableEq

/-- **The service's answer to a request for a page.** -/
structure PageReply where
  /-- The entries, in ascending order of their keys. -/
  entries : List ListedEntry
  /-- The token of the next page. -/
  next : Option String
  deriving DecidableEq

/-- **The service's answer to a request for a content.** -/
inductive ContentReply where
  /-- There is no such object. -/
  | missing
  /-- The request was refused. -/
  | refused (reason : String)
  /-- The content broke off. -/
  | broken (reason : String)
  /-- The whole content. -/
  | content (bytes : List UInt8)
  deriving DecidableEq

/-- **A bucket of a service.** -/
structure RemoteBucket where
  /-- The name. -/
  name : String
  /-- Whether it can be reached, and if not, why. -/
  access : Except String Unit
  /-- The answer to a request for a page. -/
  page : PageRequest → Except String PageReply
  /-- The answer to a request for a content. -/
  content : String → ContentReply

/-- The request for a page of a listing. A service lists the keys behind `q.start`, where the listing means from it
on. -/
def ListQuery.request (q : ListQuery) (token : Option String) : PageRequest := ⟨q.under, q.start, token⟩

/-- The objects among entries before the end `stop` of a listing, and whether the end is among them. An entry without a
key is passed over, and an object that nobody knows the age of cannot be listed. -/
def readEntries (stop : Option String) : List ListedEntry → Except Failure (List ObjectRecord × Bool)
  | [] => .ok ([], false)
  -- an entry without a key is passed over
  | ⟨none, _⟩ :: rest => readEntries stop rest
  | ⟨some key, modified⟩ :: rest =>
    -- behind the first key that reaches the end nothing is read, not even a time that is missing
    if stop.any fun s => decide (s ≤ key) then .ok ([], true)
    else match modified with
      | none => .error (.storage ("Object '" ++ key ++ "' has no modification time"))
      | some t => do
        let (records, ended) ← readEntries stop rest
        .ok (⟨key, t⟩ :: records, ended)

/-- **The page of a listing**, by the reply to the request. Behind the end of the listing there is no page: when it is
among the entries, the token of the service is dropped. -/
def readPage (q : ListQuery) : Except String PageReply → Except Failure ObjectPage
  | .error reason => .error (.storage ("Failed to list objects under '" ++ q.under ++ "': " ++ reason))
  | .ok reply => do
    let (records, ended) ← readEntries q.stop reply.entries
    .ok ⟨records, if ended then none else reply.next⟩

/-- **The content of the object `key`**, by the reply to the request; each way to fail has its own text. -/
def readContent (key : String) : ContentReply → Except Failure (List UInt8)
  | .missing => .error (.notFound ("Object " ++ key))
  | .refused reason => .error (.storage ("Failed to get object from S3: " ++ reason))
  | .broken reason => .error (.storage ("Failed to read S3 response body: " ++ reason))
  | .content bytes => .ok bytes

namespace RemoteBucket

/-- A page of the listing `q` of a bucket. -/
def list (b : RemoteBucket) (q : ListQuery) (token : Option String) : Except Failure ObjectPage :=
  readPage q (b.page (q.request token))

/-- The content of an object. Nothing can be asked for by an empty `key`. -/
def read (b : RemoteBucket) (key : String) : Except Failure (List UInt8) :=
  readContent key (if key = "" then .refused "the key is empty" else b.content key)

/-- **The check that a bucket can be reached**, which is made before anything else: it fails with the reason of
`b.access`. -/
def check (b : RemoteBucket) : Except Failure Unit :=
  match b.access with
  | .ok _ => .ok ()
  | .error reason => .error (.storage ("Failed to access bucket '" ++ b.name ++ "': " ++ reason))

/-- **The store that callers meet**: it answers at once, and its answers do not depend on the calls before. -/
def toStore (b : RemoteBucket) : ObjectStore := ⟨0, fun _ _ => b.list, fun _ => b.read⟩

/-- A bucket that cannot be reached, for the given `reason`. -/
def outOfReach (name reason : String) : RemoteBucket :=
  ⟨name, .error reason, fun _ => .error reason, fun _ => .refused reason⟩

end RemoteBucket

end PayloadGate
