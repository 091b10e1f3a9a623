import SchemaInference.Mongo.Collection

set_option autoImplicit false

namespace SchemaInference

namespace Mongo

structure Driver (δ κ : Type) where
  find : List (Value × Value) → δ → Except Raised κ × δ
  sortLatest : String → κ → δ → Except Raised κ × δ
  limit : Int → κ → δ → Except Raised κ × δ
  toList : Nat → κ → δ → Except Raised (List Value × κ) × δ
  distinct : Value → δ → Except Raised (List Value) × δ
  lastStatistics : δ → Except Raised Value × δ
  describe : δ → Except Raised Value × δ
  /-- A number of pages after which every cursor is at its end. -/
  bound : δ → Nat

def Collection.driver : Driver Collection Cursor where
  find := find
  sortLatest key cursor s :=
    let (cursor, s) := s.sortLatest key cursor
    (.ok cursor, s)
  limit n cursor s :=
    let (cursor, s) := s.limit n cursor
    (.ok cursor, s)
  toList size cursor s :=
    let (rows, cursor, s) := s.toList size cursor
    (.ok (rows, cursor), s)
  distinct := distinct
  lastStatistics := lastStatistics
  describe := describe
  bound s := s.documents.length + 2

end Mongo

end SchemaInference
