import PtaasBench.Runners.Reset

/-!
# PtaasBench.Runners.Topology — the address map of the targets (`_lib/topology.py`)

What docker says of each container is data here (`ServiceTopology`).
-/

namespace PtaasBench.Runners

open Py

/-- One container of one target application, as docker sees it. -/
structure ServiceTopology where
  service : String
  containerId : Option String := none
  containerName : Option String := none
  image : Option String := none
  imageId : Option String := none
  imageDigest : Option String := none
  addresses : Dict String String := Dict.empty  -- network → address on it
  startedAt : Option String := none

structure AppTopology where
  app : String
  services : List ServiceTopology := []
  stateDigestBefore : Option String := none
  stateDigestAfter : Option String := none

def ServiceTopology.toDict (s : ServiceTopology) : Json :=
  .obj [("service", .str s.service), ("container_id", jsonText s.containerId),
    ("container_name", jsonText s.containerName), ("image", jsonText s.image),
    ("image_id", jsonText s.imageId), ("image_digest", jsonText s.imageDigest),
    ("addresses", .arr ((Benchctl.sortedDict s.addresses).items.map fun a =>
      .obj [("network", .str a.1), ("ip", .str a.2)])),
    ("started_at", jsonText s.startedAt)]

namespace AppTopology

/-- Every address the application answers on, across its services and networks. -/
def addresses (t : AppTopology) : List String :=
  fromKeys ((t.services.flatMap fun s => s.addresses.items.map Prod.snd).filter (· ≠ ""))

def toDict (t : AppTopology) : Json :=
  .obj [("app", .str t.app), ("addresses", .arr (t.addresses.map .str)),
    ("services", .arr (t.services.map ServiceTopology.toDict)),
    ("state_digest_before", jsonText t.stateDigestBefore),
    ("state_digest_after", jsonText t.stateDigestAfter)]

end AppTopology

/-- The map as it is sent to the collector and written to the record. -/
def addressPayload (topologies : Dict String AppTopology) : Json :=
  .obj (topologies.items.map fun e => (e.1, e.2.toDict))

/-- An entry of the map has no state digests under the names the scorer reads. -/
theorem containerOf_toDict [Runtime] (t : AppTopology) {entry : Obj} (h : t.toDict.asObj? = some entry) :
    (Benchctl.containerOf entry).resetDigestBefore = none ∧
      (Benchctl.containerOf entry).resetDigestAfter = none := by
  obtain rfl := Option.some.inj h
  exact ⟨rfl, rfl⟩

end PtaasBench.Runners
