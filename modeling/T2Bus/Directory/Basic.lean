import T2Bus.Lib.Assoc
import T2Bus.Protocol

/-!
# The directory

A trie of topic segments. A node stores the owner of the topic it stands for and the subscribers of
that topic pattern; its children are a hash map from segment to node, here an association list, and
its subscribers a hash set, here a list without repetition.

* `claimSegments`, `unclaimSegments`, `getOwnerSegments`, `subscribeSegments`,
  `unsubscribeSegments` walk down the segments of a topic;
* `getSubscribersAux` (`_get_subscribers`) searches a subtree with a pattern; it is written by
  recursion on the tree, and the `getSubscribersAux_*` equations state it branch by branch;
* `dropClientAux` (`_drop_client`) walks the whole tree with the stack of segments above the node.
-/

namespace T2Bus

inductive Directory where
  | mk (owner : Option ClientId) (children : List (String × Directory))
      (subscribers : List ClientId)

namespace Directory

def owner : Directory → Option ClientId
  | mk owner _ _ => owner

def children : Directory → List (String × Directory)
  | mk _ children _ => children

def subscribers : Directory → List ClientId
  | mk _ _ subscribers => subscribers

def new : Directory := mk none [] []

def setOwner (self : Directory) (owner : Option ClientId) : Directory :=
  mk owner self.children self.subscribers

def setSubscribers (self : Directory) (subscribers : List ClientId) : Directory :=
  mk self.owner self.children subscribers

/-- `self.children.get(name)` -/
def child? (self : Directory) (name : String) : Option Directory := self.children.lookup name

/-- The node after `get_mut(name)` has left `child` under `name`. -/
def setChild (self : Directory) (name : String) (child : Directory) : Directory :=
  mk self.owner (Assoc.set name child self.children) self.subscribers

def ensureChild (self : Directory) (name : String) : Directory :=
  if (self.child? name).isSome then self else self.setChild name new

def isWildcard (segment : String) : Prop := segment = wildcard ∨ segment = doubleWildcard

instance (segment : String) : Decidable (isWildcard segment) := by
  unfold isWildcard; infer_instance

/-! ## Owners -/

def claimSegments (client : ClientId) : List String → Directory → BusResult Unit × Directory
  | [], self =>
    match self.owner with
    | some owner =>
      if owner = client then (.ok (), self) else (.error .topicAlreadyClaimed, self)
    | none => (.ok (), self.setOwner (some client))
  | segment :: rest, self =>
    if isWildcard segment then (.error .claimWildcardNotSupported, self)
    else
      let self := self.ensureChild segment
      -- the child is there: it was just ensured
      let (result, child) := claimSegments client rest ((self.child? segment).getD new)
      (result, self.setChild segment child)

def unclaimSegments (client : ClientId) : List String → Directory → BusResult Unit × Directory
  | [], self => (.ok (), if self.owner = some client then self.setOwner none else self)
  | segment :: rest, self =>
    if isWildcard segment then (.error .claimWildcardNotSupported, self)
    else
      match self.child? segment with
      | some child =>
        let (result, child) := unclaimSegments client rest child
        (result, self.setChild segment child)
      | none => (.ok (), self)

def getOwnerSegments : List String → Directory → Option ClientId
  | [], self => self.owner
  | segment :: rest, self =>
    if isWildcard segment then none
    else
      match self.child? segment with
      | some child => getOwnerSegments rest child
      | none => none

/-! ## Subscribers -/

def subscribeSegments (client : ClientId) : List String → Directory → Directory
  | [], self => self.setSubscribers (self.subscribers.insert client)
  | segment :: rest, self =>
    let self := self.ensureChild segment
    -- the child is there: it was just ensured
    self.setChild segment (subscribeSegments client rest ((self.child? segment).getD new))

def unsubscribeSegments (client : ClientId) : List String → Directory → BusResult Unit × Directory
  | [], self => (.ok (), self.setSubscribers (self.subscribers.filter (· ≠ client)))
  | segment :: rest, self =>
    match self.child? segment with
    | some child =>
      let (result, child) := unsubscribeSegments client rest child
      (result, self.setChild segment child)
    | none => (.ok (), self)

/-- What is found below one child, for each rest of the published topic and each flag. -/
abbrev Search := List String → Bool → List ClientId

/-- The search at a child that may be missing. -/
def searchAt (children : List (String × Search)) (name : String) : Search := fun topic flag =>
  match children.lookup name with
  | some child => child topic flag
  | none => []

/-- One node's search with the flag down, given the searches of its children; `here` is what the
node itself finds with the rest of the topic. -/
def searchNode (subscribers : List ClientId) (children : List (String × Search)) :
    List String → List ClientId → List ClientId
  -- a subscribed `**` can match the empty remainder
  | [], _ => subscribers ∪ searchAt children doubleWildcard [] true
  | segment :: rest, here =>
    if segment = doubleWildcard then
      -- a published `**` matches zero or more of the subscribed segments
      children.foldl (fun found child => child.2 (segment :: rest) false ∪ found) here
    else if segment = wildcard then
      -- a published `*` matches any one subscribed segment
      children.foldl (fun found child =>
        (if child.1 = doubleWildcard then child.2 (segment :: rest) true
          else child.2 rest false) ∪ found) []
    else
      searchAt children segment rest false ∪ searchAt children wildcard rest false ∪
        searchAt children doubleWildcard (segment :: rest) true

/-- One node's search. With the flag up the node is a subscribed `**`: it stops here, or consumes
the next segment. -/
def search (subscribers : List ClientId) (children : List (String × Search)) : Search
  | [], _ => searchNode subscribers children [] []
  | segment :: rest, flag =>
    let found := searchNode subscribers children (segment :: rest)
      (search subscribers children rest false)
    if flag then found ∪ search subscribers children rest true else found

mutual

/-- `_get_subscribers` -/
def getSubscribersAux : Directory → Search
  | mk _ children subscribers => search subscribers (childSearches children)

def childSearches : List (String × Directory) → List (String × Search)
  | [] => []
  | (segment, child) :: rest => (segment, getSubscribersAux child) :: childSearches rest

end

/-! ## Dropping a client -/

/-- What `_drop_client` threads through the tree: the stack of segments above the node and the
topics found so far. -/
structure Drop where
  topic : List String
  results : List Topic

def Drop.push (s : Drop) (segment : String) : Drop := { s with topic := s.topic ++ [segment] }

def Drop.pop (s : Drop) : Drop := { s with topic := s.topic.dropLast }

mutual

/-- `_drop_client` -/
def dropClientAux (client : ClientId) : Directory → Drop → Directory × Drop
  | mk owner children subscribers, s =>
    let owner := if owner = some client then none else owner
    let left := subscribers.filter (· ≠ client)
    let s :=
      if client ∈ subscribers ∧ left = [] then
        { s with results := s.results ++ (Topic.fromValidSegments s.topic).toList }
      else s
    let (children, s) := dropClientChildren client children s
    (mk owner children left, s)

def dropClientChildren (client : ClientId) :
    List (String × Directory) → Drop → List (String × Directory) × Drop
  | [], s => ([], s)
  | (segment, child) :: rest, s =>
    let (child, s) := dropClientAux client child (s.push segment)
    let (rest, s) := dropClientChildren client rest s.pop
    ((segment, child) :: rest, s)

end

/-! ## The operations on topics -/

def claim (self : Directory) (client : ClientId) (topic : Topic) : BusResult Unit × Directory :=
  self |> claimSegments client topic.segments

def unclaim (self : Directory) (client : ClientId) (topic : Topic) : BusResult Unit × Directory :=
  self |> unclaimSegments client topic.segments

def getOwner (self : Directory) (topic : Topic) : Option ClientId :=
  self |> getOwnerSegments topic.segments

def subscribe (self : Directory) (client : ClientId) (topic : Topic) : Directory :=
  self |> subscribeSegments client topic.segments

def unsubscribe (self : Directory) (client : ClientId) (topic : Topic) :
    BusResult Unit × Directory :=
  self |> unsubscribeSegments client topic.segments

def getSubscribers (self : Directory) (topic : Topic) : List ClientId :=
  getSubscribersAux self topic.segments false

/-- Unsubscribes `client` from all topics; also the topics that newly have no subscribers. -/
def dropClient (self : Directory) (client : ClientId) : List Topic × Directory :=
  let (self, s) := dropClientAux client self ⟨[], []⟩
  (s.results, self)

end Directory

end T2Bus
