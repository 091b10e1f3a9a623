import SchemaInference.Failure
import SchemaInference.Sampling.Query

set_option autoImplicit false

namespace SchemaInference

structure FeedPage where
  rows : List Value
  charge : Value
deriving Inhabited

structure Store (σ φ : Type) where
  start : SampleQuery → σ → φ × σ
  hasMore : φ → Bool
  fetch : φ → σ → Except Raised FeedPage × φ × σ
  /-- A number of fetches after which the feed has no more. -/
  bound : φ → σ → Nat
  /-- Tells the path of the partition key, where the store can. -/
  partitionPath : Option (σ → Except Raised (Option String) × σ)

/-- The pages still to come; one may be an error in place of a page. -/
abbrev PageFeed := List (Except Raised FeedPage)

namespace PageFeed

def fetch {σ : Type} (feed : PageFeed) (s : σ) : Except Raised FeedPage × PageFeed × σ :=
  match feed with
  | [] => (.ok ⟨[], .null⟩, [], s)
  | page :: rest => (page, rest, s)

end PageFeed

def Store.ofPages {σ : Type} (answer : SampleQuery → σ → PageFeed × σ)
    (partitionPath : Option (σ → Except Raised (Option String) × σ)) : Store σ PageFeed where
  start := answer
  hasMore feed := !feed.isEmpty
  fetch feed s := feed.fetch s
  bound feed _ := feed.length
  partitionPath := partitionPath

end SchemaInference
