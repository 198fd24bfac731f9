import Qpc.Qep.StateTree
import Qpc.Qep.Dispatch
import Qpc.Game.Events
import Qpc.Game.Missile.Model
import Qpc.Game.Missile.Dispatch
import Qpc.Game.Missile.Flight
import Qpc.Game.Missile.Explosion
import Qpc.Game.Missile.Safety
import Qpc.Game.Missile.Rearm
import Qpc.Game.Missile.Traffic
import Qpc.Qf.EQueue
import Qpc.Qf.Active
import Qpc.Game.Missile.System
import Qpc.Port.FreeRtos
