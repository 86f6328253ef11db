import PathAlias.Text

/-!
# Core modules

The modules that the host carries itself. A request for one of them is never mapped.
-/

namespace PathAlias

def coreModules : List Text :=
  (["assert", "assert/strict", "async_hooks", "buffer", "child_process", "cluster", "console",
   "constants", "crypto", "dgram", "diagnostics_channel", "dns", "dns/promises", "domain",
   "events", "fs", "fs/promises", "http", "http2", "https", "inspector", "module", "net", "os",
   "path", "path/posix", "path/win32", "perf_hooks", "process", "punycode", "querystring",
   "readline", "readline/promises", "repl", "stream", "stream/consumers", "stream/promises",
   "stream/web", "string_decoder", "sys", "timers", "timers/promises", "tls", "trace_events",
   "tty", "url", "util", "util/types", "v8", "vm", "wasi", "worker_threads",
   "zlib"] : List String).map String.toList

/-- Whether a request names a module built into the host, plainly or behind `node:`. -/
def isCoreModule (request : Text) : Bool :=
  ("node:" : Text).isPrefixOf request || coreModules.contains request

end PathAlias
