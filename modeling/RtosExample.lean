import RtosExample.Cint
import RtosExample.Lib.ByteBus
import RtosExample.I2c.BitOps
import RtosExample.I2c.Bytes
import RtosExample.I2c.Core
import RtosExample.Eeprom.Driver
import RtosExample.I2c.Transfer
import RtosExample.Eeprom.Framing
import RtosExample.Eeprom.Errors
import RtosExample.Lib.Memory
import RtosExample.Eeprom.At24c02
import RtosExample.Lib.Interleave
import RtosExample.Eeprom.Atomic
import RtosExample.Lcd.Dev
import RtosExample.Lcd.Draw
import RtosExample.Lib.Disc
import RtosExample.Lcd.FillCircle
import RtosExample.Lcd.Text
import RtosExample.Lib.Raster
import RtosExample.Lcd.Controller
import RtosExample.Lib.Runs
import RtosExample.Lcd.Calls
import RtosExample.Lcd.CircleShape
import RtosExample.Lcd.CircleWords
import RtosExample.Lcd.Geometry
import RtosExample.Lcd.Ranges
import RtosExample.Lcd.Screen
import RtosExample.Lcd.Clear
import RtosExample.Lib.Dda
import RtosExample.Lcd.Line
import RtosExample.Lib.Ring
import RtosExample.Lcd.Circle
import RtosExample.Lcd.Canvas
import RtosExample.Lcd.Fill
import RtosExample.Lcd.Shapes
import RtosExample.Lcd.Glyph
import RtosExample.Lcd.Beyond
import RtosExample.Lib.Flow
import RtosExample.Lcd.Layout
import RtosExample.Lcd.TextBox
import RtosExample.Lcd.Number
import RtosExample.Lib.Queue
import RtosExample.Kernel.TimerList
import RtosExample.Kernel.Deadlines
import RtosExample.Kernel.Firing
import RtosExample.Kernel.Sched
import RtosExample.Kernel.ReadyQueue
import RtosExample.Kernel.Dispatch
import RtosExample.Kernel.Mutex
import RtosExample.Kernel.Effects
import RtosExample.Kernel.Invariant
import RtosExample.Kernel.Tick
import RtosExample.Kernel.Calls
import RtosExample.Kernel.System
import RtosExample.Kernel.Books
import RtosExample.Kernel.Bookkeeping
import RtosExample.Kernel.Boot
import RtosExample.Lib.Inherit
import RtosExample.Kernel.Deeds
import RtosExample.Kernel.Steps
import RtosExample.Kernel.Service
import RtosExample.Kernel.Inheritance
import RtosExample.Lib.RoundRobin
import RtosExample.Kernel.TimeSlices
import RtosExample.I2c.Simulation
import RtosExample.Lib.TwoWire
import RtosExample.I2c.Pins
import RtosExample.I2c.Edges
import RtosExample.Eeprom.OnPins
