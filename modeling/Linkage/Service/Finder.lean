import Linkage.Service.Stock

/-!
# Dependencies from a host build and the plugin cache

A dependency is looked for among the plugins that come with the host build, then in the cache of
plugins. One from the cache is held by its handle.
-/

namespace Linkage

namespace Services

variable {φ : Type}

/-- The answer to a lookup in the cache of plugins. -/
def dependencyAnswer (id : String) :
    CacheAnswer String PluginDescriptor → DependencyAnswer (Handle String PluginDescriptor)
  | .found handle => .found ⟨handle.value.plugin, some handle⟩
  | .failed (.notFound reason) => .notFound reason
  | .failed (.failed message _) => .notFound ("Failed to obtain " ++ id ++ ": " ++ message)
  | .refused (.cancelled _) => .notFound "Dependency resolution was interrupted"
  | .refused refusal => .notFound refusal.message
  | .lost => .notFound ("Failed to obtain " ++ id ++ ": " ++ BuildFailure.disappeared)

/-- Looks for a dependency; `cancelled` tells whether to wait for builds of others. -/
def findDependency (services : Services φ) (host : HostDescriptor)
    (cancelled : StateM (Workplace φ) (Option String)) (d : Dependency) :
    StockWork φ (DependencyAnswer (Handle String PluginDescriptor)) := do
  match host.bundled.get? d.id with
  | some plugin => return .found ⟨plugin, none⟩
  | none => return dependencyAnswer d.id (← Stock.withPlugins (services.plugins.get cancelled d.id))

/-- Finds dependencies in a stock: those that come with the host build, those that are in the cache or
being built, and those that can be built. -/
def finder (services : Services φ) (host : HostDescriptor) (s : Stock φ) :
    DependencyFinder (Stock φ) (Handle String PluginDescriptor) where
  find := services.findDependency host Workplace.cancelled
  reach := host.bundled.size + s.plugins.size + s.plugins.building.size
    + services.pluginsAt s.workplace.place

end Services

end Linkage
