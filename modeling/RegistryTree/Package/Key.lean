/-!
# The identity of a definition

Operators extend the interface of a cluster by definitions of new kinds of object. What a definition
serves is known by the group of the interface, the version in the group and the kind; the three
together are the key by which releases refer to definitions.
-/

namespace RegistryTree

/-- The group, version and kind that a definition serves. -/
structure ResourceKey where
  group : String
  version : String
  kind : String
  deriving DecidableEq, Repr

namespace ResourceKey

/-- How messages show a key. -/
def toText (k : ResourceKey) : String := k.kind ++ "." ++ k.group ++ "/" ++ k.version

/-- Whether a key comes before another: by group, then version, then kind. -/
def lt (a b : ResourceKey) : Bool :=
  a.group < b.group ||
    (a.group = b.group && (a.version < b.version || (a.version = b.version && a.kind < b.kind)))

/-- Keys in ascending order. -/
def sort (keys : List ResourceKey) : List ResourceKey := keys.mergeSort fun a b => !b.lt a

end ResourceKey

end RegistryTree
